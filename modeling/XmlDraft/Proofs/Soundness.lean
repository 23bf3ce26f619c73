import XmlDraft.Proofs.Found
import XmlDraft.Proofs.Simulation
import XmlDraft.Proofs.TopLevel

/-!
# Documents that sessions build

What calls check before they change anything shows in the nodes that they make: an element has
each attribute once and none that declares a namespace, and its names were checked, if names are;
there is no empty character data, and a comment ends where it is ended.  At the top level nodes
are added in the order that documents have.  Main statement: every step keeps this, whatever it
consists of and whatever document it began with.
-/

namespace XmlDraft

/-! ### New elements -/

namespace Attributes

/-- Setting an attribute adds its name behind the others, unless it is one of them. -/
theorem map_fst_set (attributes : Attributes) (name value : String) :
  (attributes.set name value).map Prod.fst
    = if name ∈ attributes.map Prod.fst then attributes.map Prod.fst
      else attributes.map Prod.fst ++ [name]
  := by
  induction attributes with
  | nil => rfl
  | cons a others ih =>
      obtain ⟨n, v⟩ := a
      rw [set]
      by_cases hn : n = name
      · simp [hn]
      · have hmem : name ∈ ((n, v) :: others).map Prod.fst ↔ name ∈ others.map Prod.fst := by
          simp [Ne.symm hn]
        rw [if_neg hn, List.map_cons, ih]
        simp only [hmem]
        split_ifs <;> rfl

end Attributes

namespace Prepared

/-- What one attribute does to an element when it can be set: nothing without a value, and otherwise
it sets the namespace or an attribute. -/
theorem applyOne_ok {e e' : QName × Attributes} {p : FieldName × Option String}
    (h : applyOne e p = .ok e') :
  (p.2 = none ∧ e' = e)
    ∨ ∃ name value, p = (.text name, some value)
      ∧ ((name = "xmlns" ∧ e' = (e.1.inSpace (some value), e.2))
        ∨ (name ≠ "xmlns" ∧ e' = (e.1, e.2.set name value)))
  := by
  obtain ⟨name, value⟩ := p
  cases value with
  | none =>
      cases h
      exact .inl ⟨rfl, rfl⟩
  | some value =>
      cases name with
      | other isPrivate => cases h
      | text name =>
          refine .inr ⟨name, value, rfl, ?_⟩
          by_cases hname : name = "xmlns"
          · simp only [applyOne, FieldName.text?, Option.any_some, declaresSpace, hname, decide_true,
              ite_true, Except.ok.injEq] at h
            exact .inl ⟨hname, h.symm⟩
          · simp only [applyOne, FieldName.text?, Option.any_some, declaresSpace, hname, decide_false,
              Bool.false_eq_true, ite_false, Attributes.assign, Except.map, Except.ok.injEq] at h
            exact .inr ⟨hname, h.symm⟩

/-- What holds of an element and is kept by each attribute that can be set holds of the element to
which attributes were copied. -/
theorem apply_induct {P : QName × Attributes → Prop} {ps : Prepared}
    (hstep : ∀ p ∈ ps, ∀ e e', P e → applyOne e p = .ok e' → P e') {name : QName}
    {attributes : Attributes} (h : P (name, attributes)) :
  P (ps.apply name attributes)
  := by
  induction ps generalizing name attributes with
  | nil => exact h
  | cons p ps ih =>
      rw [List.forall_mem_cons] at hstep
      rw [apply, copy]
      split
      · rename_i hp
        exact ih hstep.2 (hstep.1 _ _ h hp)
      · exact h

/-- One more attribute keeps an element of the form that calls give to elements. -/
theorem applyOne_made {checked : Bool} {children : List Node} {e e' : QName × Attributes}
    {p : FieldName × Option String} (hname : checked → p.1.text?.any Name.isName)
    (h : (Node.element e.1 e.2 children).IsMade checked) (hp : applyOne e p = .ok e') :
  (Node.element e'.1 e'.2 children).IsMade checked
  := by
  obtain ⟨⟨hnodup, hspaceless⟩, hspace, hnamed⟩ := h
  obtain ⟨-, rfl⟩ | ⟨name, value, rfl, ⟨hdeclares, rfl⟩ | ⟨hdeclares, rfl⟩⟩ := applyOne_ok hp
  · exact ⟨⟨hnodup, hspaceless⟩, hspace, hnamed⟩
  · refine ⟨⟨hnodup, hspaceless⟩, ?_, hnamed⟩
    simp [Node.name?, QName.inSpace, nonempty?, Option.filter_eq_some_iff]
  · have hnames := Attributes.map_fst_set e.2 name value
    have hall : checked → Name.isName e.1.localPart ∧ (e.2.map Prod.fst).all Name.isName :=
      fun hc => Bool.and_eq_true_iff.mp (hnamed hc)
    split_ifs at hnames with hmem
    · refine ⟨⟨hnames ▸ hnodup, hnames ▸ hspaceless⟩, hspace, fun hc => ?_⟩
      rw [Node.isNamed, hnames, Bool.and_eq_true]
      exact hall hc
    · have hfresh : (e.2.map Prod.fst ++ [name]).Nodup := by
        rw [List.nodup_append]
        refine ⟨hnodup, by simp, ?_⟩
        rintro q hq r hr rfl
        exact hmem (List.mem_singleton.mp hr ▸ hq)
      have hspaceless' : "xmlns" ∉ e.2.map Prod.fst ++ [name] := by
        rw [List.mem_append, List.mem_singleton, not_or]
        exact ⟨hspaceless, Ne.symm hdeclares⟩
      refine ⟨⟨hnames ▸ hfresh, hnames ▸ hspaceless'⟩, hspace, fun hc => ?_⟩
      rw [Node.isNamed, hnames, List.all_append, Bool.and_eq_true, Bool.and_eq_true]
      exact ⟨(hall hc).1, (hall hc).2, by simpa [FieldName.text?] using hname hc⟩

/-- The name of an attribute that is prepared is its own, and its value the text of its value, if it
has one; the name was checked, if names are. -/
theorem one_ok {checked : Bool} {name : FieldName} {v : Value} {p : FieldName × Option String}
    (h : one checked name v = .ok p) :
  (checked → name.text?.any Name.isName)
    ∧ ((v = .none ∧ p = (name, none)) ∨ (v ≠ .none ∧ ∃ s, v.markup = .ok s ∧ p = (name, some s)))
  := by
  have hchecked : checked → name.text?.any Name.isName := by
    rintro rfl
    simp only [one, ite_true, bind, Except.bind] at h
    split at h
    · cases h
    · rename_i hcheck
      cases name with
      | other isPrivate => cases hcheck
      | text name =>
          obtain ⟨w, hw, -⟩ := Reading.map_ok hcheck
          simpa [FieldName.text?] using (Site.check_ok hw).1
  have hunchecked : one false name v = .ok p := by
    cases checked with
    | false => exact h
    | true =>
        simp only [one, ite_true, bind, Except.bind] at h
        split at h
        · cases h
        · exact h
  refine ⟨hchecked, ?_⟩
  by_cases hv : v = .none
  · subst hv
    cases hunchecked
    exact .inl ⟨rfl, rfl⟩
  · have hmap : ((v.markup.mapError Fault.ofNoText).map fun s => (name, some s)) = .ok p := by
      cases v with
      | none => exact absurd rfl hv
      | _ => exact hunchecked
    obtain ⟨s, hs, rfl⟩ := Reading.map_ok hmap
    exact .inr ⟨hv, s, Reading.mapError_ok hs, rfl⟩

/-- The names of attributes are checked, if names are. -/
theorem ofFields_named {fields : List (FieldName × Value)} {prepared : Prepared}
    (h : ofFields true fields = .ok prepared) :
  ∀ p ∈ prepared, p.1.text?.any Name.isName
  := by
  induction fields generalizing prepared with
  | nil =>
      cases h
      simp
  | cons field rest ih =>
      obtain ⟨name, v⟩ := field
      obtain ⟨p, hp, h⟩ := Reading.bind_ok h
      obtain ⟨ps, hps, h⟩ := Reading.bind_ok h
      cases h
      obtain ⟨hname, ⟨-, rfl⟩ | ⟨-, s, -, rfl⟩⟩ := one_ok hp
      · exact List.forall_mem_cons.mpr ⟨hname rfl, ih hps⟩
      · exact List.forall_mem_cons.mpr ⟨hname rfl, ih hps⟩

end Prepared

namespace Builder

/-- The name of a tag is one, if names are checked. -/
theorem tagName_named {settings : Settings} {v : Value} {name : Wording}
    (h : tagName settings v = .ok name) (hchecks : settings.checkNames.counts) :
  Name.isName name.text
  := by
  simp only [tagName, bind, Except.bind, hchecks, ite_true] at h
  split at h
  · cases h
  · split at h
    · cases h
    · split_ifs at h
      obtain ⟨hname, rfl⟩ := Site.check_ok h
      exact hname

/-- The nodes of a new element are of the form that calls give to nodes. -/
theorem elementOf_made {settings : Settings} {name : Wording} {given : List Value}
    {named : List (String × Value)} {element : Node} {sequel : Sequel}
    (hname : settings.checkNames.counts → Name.isName name.text)
    (h : elementOf settings name given named = .ok (element, sequel)) :
  ∀ m ∈ element.nodes, m.IsMade settings.checkNames.counts
  := by
  obtain ⟨classified, prepared, q, _, hprepared, hq, rfl, _⟩ := elementOf_ok h
  have hnames : settings.checkNames.counts → ∀ p ∈ prepared, p.1.text?.any Name.isName := by
    intro hchecks
    rw [hchecks] at hprepared
    exact Prepared.ofFields_named hprepared
  obtain ⟨hlocal, hspace⟩ := QName.of?_eq_some hq
  rw [newElement, Node.forall_nodes_element]
  constructor
  · apply Prepared.apply_induct (P := fun e => (Node.element e.1 e.2 _).IsMade _)
    · exact fun p hp e e' he => Prepared.applyOne_made (fun hchecks => hnames hchecks p hp) he
    · refine ⟨⟨List.nodup_nil, List.not_mem_nil⟩, by simp [Node.name?, hspace], ?_⟩
      simpa [Node.isNamed, hlocal] using hname
  · cases hcontent : nonempty? classified.content with
    | none => simp [Node.nodesList]
    | some content =>
        have hne : content ≠ "" := by
          rw [nonempty?, Option.filter_eq_some_iff] at hcontent
          simpa using hcontent.2
        have hmade : (Node.text content).IsMade settings.checkNames.counts :=
          ⟨hne, by simp [Node.name?], fun _ => rfl⟩
        simpa [Node.nodesList, Node.nodes] using hmade

end Builder

/-! ### Nodes at the top level -/

/-- A node that calls added at the top level: a document type with a name that was checked, if
names are, or a node of which everything is of the form that calls give to nodes. -/
def Node.IsAdded (checked : Bool) (n : Node) : Prop :=
  (n.isDoctype ∧ (checked → n.isNamed)) ∨ ∀ m ∈ n.nodes, m.IsMade checked

/-- Nodes at the top level to which calls added others behind the first ones. -/
structure Node.AreBuilt (checked : Bool) (start ns : List Node) : Prop where
  added : ∃ others, ns = start ++ others ∧ ∀ n ∈ others, n.IsAdded checked
  ordered : Document.IsOrdered ⟨none, ns⟩

theorem Node.areBuilt_refl {checked : Bool} {d : Document} (h : d.IsOrdered) :
  AreBuilt checked d.children d.children
  where
    added := ⟨[], by simp⟩
    ordered := h.declare none

namespace Site

/-- Sound children at a site: those of an element, or those at the top level behind others. -/
def Sound (start : List Node) (s : Site) (h : Sheet) : Prop :=
  if s.depth = 0 then Node.AreBuilt s.settings.checkNames.counts start h.children
  else ∀ m ∈ Node.nodesList h.children, m.IsMade s.settings.checkNames.counts

/-- Outside of all fragments nothing stands around the children. -/
def IsPlain (s : Site) : Prop :=
  s.depth = 0 → ∀ children, s.around children = children

theorem isPlain_inside (s : Site) (before : List Node) (element : Node) :
  (s.inside before element).IsPlain
  := fun h => absurd h (Nat.succ_ne_zero s.depth)

variable {start : List Node}

theorem sound_inside {s : Site} {before : List Node} {element : Node} {h : Sheet} :
  (s.inside before element).Sound start h
    ↔ ∀ m ∈ Node.nodesList h.children, m.IsMade s.settings.checkNames.counts
  := by
  have hdepth : (s.inside before element).depth ≠ 0 := Nat.succ_ne_zero s.depth
  rw [Sound, if_neg hdepth]
  rfl

/-- Adding a node keeps the children sound, whatever becomes of the declaration. -/
theorem sound_append {s : Site} (plain : s.IsPlain) {h after : Sheet} (hsound : s.Sound start h)
    {n : Node} (hmisplaced : s.misplacement? h n = none)
    (hn : (∀ m ∈ n.nodes, m.IsMade s.settings.checkNames.counts)
      ∨ s.depth = 0 ∧ n.isDoctype ∧ (s.settings.checkNames.counts → n.isNamed))
    (hafter : after.children = h.children ++ [n]) :
  s.Sound start after
  := by
  unfold Sound at hsound ⊢
  rw [hafter]
  split_ifs at hsound ⊢ with hdepth
  · obtain ⟨⟨others, hothers, hadded⟩, hordered⟩ := hsound
    rw [misplacement?, if_pos hdepth, document, plain hdepth] at hmisplaced
    refine ⟨⟨others ++ [n], by rw [hothers, List.append_assoc], ?_⟩, ?_⟩
    · have htop : n.IsAdded s.settings.checkNames.counts := hn.symm.imp_left And.right
      exact List.forall_mem_append.mpr ⟨hadded, by simpa using htop⟩
    · exact ((hordered.declare h.declaration).append hmisplaced).declare none
  · intro m hm
    rw [Node.nodesList_append, List.mem_append] at hm
    rcases hm with hm | hm
    · exact hsound m hm
    · exact hn.resolve_right (fun h => hdepth h.1) m (by simpa [Node.nodesList] using hm)

/-- An element that was begun keeps the children sound, whatever sound children its fragment
left in it. -/
theorem sound_fragment {s : Site} (plain : s.IsPlain) {h inner after : Sheet}
    {records : List Log.Record} {v : Value} {given : List Value} {named : List (String × Value)}
    {element : Node} {sequel : Builder.Sequel} (hsound : s.Sound start h)
    (hs : s.startElement h v given named
      = ({ h with records := records }, .ok (element, sequel)))
    (hinner : (s.inside h.children element).Sound start inner)
    (hafter : after.children = h.children ++ [element.withChildren inner.children]) :
  s.Sound start after
  := by
  obtain ⟨_, _, hname, helement, hmisplaced, _⟩ := startElement_ok hs
  have hmade := Builder.elementOf_made (Builder.tagName_named hname) helement
  cases element with
  | element name attributes children =>
      rw [Node.forall_nodes_element] at hmade
      have hwhole : ∀ m ∈ (Node.element name attributes inner.children).nodes,
          m.IsMade s.settings.checkNames.counts :=
        Node.forall_nodes_element.mpr
          ⟨⟨hmade.1.sound, hmade.1.space, hmade.1.named⟩, sound_inside.mp hinner⟩
      have hplaced : s.misplacement? h (.element name attributes inner.children) = none :=
        hmisplaced
      exact sound_append plain hsound hplaced (.inl hwhole) hafter
  | _ => cases Builder.isElement_of_elementOf helement

/-- A new element begins with sound children. -/
theorem sound_begun {s : Site} {h : Sheet} {records : List Log.Record} {v : Value}
    {given : List Value} {named : List (String × Value)} {element : Node} {sequel : Builder.Sequel}
    (hs : s.startElement h v given named
      = ({ h with records := records }, .ok (element, sequel))) :
  (s.inside h.children element).Sound start
    { h with records := records, children := element.children }
  := by
  obtain ⟨_, _, hname, helement, _⟩ := startElement_ok hs
  have hmade := Builder.elementOf_made (Builder.tagName_named hname) helement
  cases element with
  | element name attributes children => exact sound_inside.mpr (Node.forall_nodes_element.mp hmade).2
  | _ => cases Builder.isElement_of_elementOf helement

/-- Steps keep the children sound. -/
theorem kept_sound (start : List Node) :
  Kept fun s h after => s.IsPlain → s.Sound start h → s.Sound start after
  where
    same hc _ _ _ hsound := by
      unfold Sound at hsound ⊢
      rwa [hc]
    trans hfirst hnext plain hsound := hnext plain (hfirst plain hsound)
    operate s h o values plain hsound := by
      rcases operate_cases s h o values with heq | ⟨d, heq⟩ | ⟨n, ha, hother, hn⟩
      · rwa [heq]
      · rw [heq]
        exact hsound
      · obtain ⟨hmisplaced, heq⟩ := add_ok ha
        refine sound_append plain hsound hmisplaced (hn.imp_left fun hn => ?_) (by rw [heq])
        cases n with
        | element name attributes children => cases hother
        | _ => simpa [Node.nodes] using hn
    element {s h records v given named element sequel} hs plain hsound := by
      obtain ⟨_, _, hname, helement, hmisplaced, _⟩ := startElement_ok hs
      have hmade := Builder.elementOf_made (Builder.tagName_named hname) helement
      exact sound_append plain hsound hmisplaced (.inl hmade) rfl
    fragment {s h inner records v given named element takesBuilder} hs hinner plain hsound :=
      sound_fragment plain hsound hs
        (hinner (s.isPlain_inside h.children element) (sound_begun hs)) rfl

end Site

/-! ### Nodes that sessions add -/

/-- A node that may stand at the top level: an element, a comment or a document type, with sound
nodes in it. -/
def Node.IsTopSound : Node → Prop
  | .element name attributes children => ∀ m ∈ (element name attributes children).nodes, m.IsSound
  | .comment value => (comment value).IsSound
  | .doctype _ => True
  | .text _ => False
  | .cdata _ => False

/-- Nodes that may stand at the top level together, at most one of which is an element. -/
structure Node.AreTopSound (ns : List Node) : Prop where
  sound : ∀ n ∈ ns, n.IsTopSound
  root : (ns.filter Node.isElement).length ≤ 1

/-- The nodes that calls add to an empty document may stand at the top level together. -/
theorem Node.AreBuilt.areTopSound {checked : Bool} {ns : List Node} (h : AreBuilt checked [] ns) :
  AreTopSound ns
  where
    sound n hn := by
      obtain ⟨others, rfl, hadded⟩ := h.added
      have hsound : n.isDoctype ∨ ∀ m ∈ n.nodes, m.IsSound :=
        (hadded n hn).imp And.left fun hmade m hm => (hmade m hm).sound
      have htop := h.ordered.others n hn
      cases n with
      | element name attributes children => exact hsound.resolve_left (by simp [isDoctype])
      | comment value =>
          exact hsound.resolve_left (by simp [isDoctype]) _ (mem_nodes _)
      | doctype d => trivial
      | text value => simp [isDoctype, isElement] at htop
      | cdata value => simp [isDoctype, isElement] at htop
    root := h.ordered.root

namespace Site

/-- A session that begins with an empty document adds nodes to it that calls give, in the order that
documents have. -/
theorem session_built (settings : Settings) (steps : List Step) :
  Node.AreBuilt settings.checkNames.counts []
    (({ settings := settings } : Builder).runSteps steps).1.draft.document.children
  := by
  have hrun := (top settings).runSteps_eq (top_fits settings) {} steps
  have hempty : (top settings).Sound [] {} :=
    Node.areBuilt_refl (Document.isOrdered_nil none)
  have hsound := (kept_sound []).session (top settings) {} steps (fun _ _ => rfl) hempty
  have hbuilder : ({ settings := settings } : Builder) = (top settings).builder {} := rfl
  rw [hbuilder, hrun]
  exact hsound

/-- A session that begins with an empty document builds a sound one. -/
theorem session_sound (settings : Settings) (steps : List Step) :
  Node.AreTopSound ((({ settings := settings } : Builder).runSteps steps).1.draft.document.children)
  := Node.AreBuilt.areTopSound (session_built settings steps)

end Site

namespace Node

/-- A node at the top level that is no document type has sound nodes in it, and is a comment
unless it is an element. -/
theorem IsTopSound.element_or_comment {n : Node} (h : n.IsTopSound) (hdoctype : ¬ n.isDoctype) :
  (∀ m ∈ n.nodes, m.IsSound) ∧ (n.isElement ∨ ∃ value, n = .comment value)
  := by
  cases n with
  | element name attributes children => exact ⟨h, .inl rfl⟩
  | comment value =>
      have hsound : (comment value).IsSound := h
      exact ⟨by simpa [nodes] using hsound, .inr ⟨value, rfl⟩⟩
  | doctype t => exact absurd rfl hdoctype
  | text value => exact h.elim
  | cdata value => exact h.elim

/-- Sound nodes at the top level with a root and no document type are the root and comments
around it. -/
theorem AreTopSound.split {d : Document} (h : AreTopSound d.children) (hroot : d.root?.isSome)
    (hdoctype : d.doctype? = none) :
  ∃ before root after, d.children = before ++ root :: after ∧ root.isElement
    ∧ (∀ n ∈ before ++ after, ∃ value, n = .comment value) ∧ ∀ m ∈ d.nodes, m.IsSound
  := by
  rw [Document.root?, List.find?_isSome] at hroot
  rw [Document.doctype?, List.findSome?_eq_none_iff] at hdoctype
  obtain ⟨before, root, after, hsplit, helement, hothers⟩ := exists_root hroot h.root
  have htop (n : Node) (hn : n ∈ d.children) := (h.sound n hn).element_or_comment (by
    intro hd
    cases n with
    | doctype t => cases hdoctype _ hn
    | _ => cases hd)
  refine ⟨before, root, after, hsplit, helement, ?_, ?_⟩
  · intro n hn
    have hmem : n ∈ d.children := by
      rw [hsplit, List.mem_append, List.mem_cons]
      exact (List.mem_append.mp hn).imp_right .inr
    exact (htop n hmem).2.resolve_left (by simp [hothers n hn])
  · intro m hm
    obtain ⟨n, hn, hm⟩ := mem_nodesList.mp hm
    exact (htop n hn).1 m hm

end Node

end XmlDraft
