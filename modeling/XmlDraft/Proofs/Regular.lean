import XmlDraft.Proofs.Accepted
import XmlDraft.Proofs.Planting
import XmlDraft.Proofs.Reaching
import XmlDraft.Proofs.Soundness

/-!
# Regular documents

What a reader accepts and what calls add keep to the same rules: the top level is in order, every
node stands in one place, character data is not empty, comments end where they are ended, and
elements have local parts, no empty namespace and no attribute that declares one.  Main
statement: in every state that steps lead to from an empty document, or from one that was read,
the document is regular, and what calls added to it bears names, if names are checked.
-/

namespace XmlDraft

/-! ### Nodes -/

/-- A comment ends where it is ended if it holds no two hyphens in a row and does not end with
one. -/
theorem breaksComment_eq_false_iff (cs : List Char) :
  breaksComment cs = false ↔ ¬ ['-', '-'] <:+: cs ∧ cs.getLast? ≠ some '-'
  := by
  induction cs with
  | nil => simp [breaksComment]
  | cons c cs ih =>
      rw [breaksComment_cons_eq_false, ih, List.infix_cons_iff, not_or]
      cases cs with
      | nil => simp [List.cons_prefix_cons]
      | cons d ds =>
          have hpair : (c = '-' → ∃ e es, d :: ds = e :: es ∧ e ≠ '-')
              ↔ ¬ ['-', '-'] <+: c :: d :: ds := by
            simp only [List.cons_prefix_cons, List.nil_prefix, and_true]
            constructor
            · rintro h ⟨rfl, rfl⟩
              obtain ⟨e, es, heq, he⟩ := h rfl
              exact he (List.head_eq_of_cons_eq heq).symm
            · rintro h rfl
              exact ⟨d, ds, rfl, fun hd => h ⟨rfl, hd.symm⟩⟩
          rw [hpair, List.getLast?_cons_cons, and_assoc]

namespace Node

/-- A node of the kind that documents consist of: an element has a local part, no empty namespace,
no attribute that declares one, and no document type among its children; character data is not
empty; a comment holds no two hyphens in a row and does not end with one. -/
def IsRegular : Node → Prop
  | .element name attributes children =>
    name.localPart ≠ "" ∧ name.space ≠ some "" ∧ "xmlns" ∉ attributes.map Prod.fst
      ∧ ∀ n ∈ children, n.isDoctype = false
  | .text value => value ≠ ""
  | .cdata value => value ≠ ""
  | .comment value => ¬ ['-', '-'] <:+: value.text.toList ∧ value.text.toList.getLast? ≠ some '-'
  | .doctype _ => True

mutual

/-- Nodes of a form that calls give to nodes are regular. -/
theorem isRegular_of_made {checked : Bool} {n : Node} (h : ∀ m ∈ n.nodes, m.IsMade checked) :
  ∀ m ∈ n.nodes, m.IsRegular
  := by
  cases n with
  | element name attributes children =>
      rw [forall_nodes_element] at h ⊢
      obtain ⟨hmade, hchildren⟩ := h
      refine ⟨⟨name.localPart_ne, hmade.space, hmade.sound.2, ?_⟩, areRegular_of_made hchildren⟩
      intro c hc
      have hsound := (hchildren c (mem_nodesList.mpr ⟨c, hc, mem_nodes c⟩)).sound
      cases c with
      | doctype d => exact hsound.elim
      | _ => rfl
  | text value =>
      have hsound : value ≠ "" := (h _ (mem_nodes _)).sound
      simpa [nodes, IsRegular] using hsound
  | cdata value =>
      have hsound : value ≠ "" := (h _ (mem_nodes _)).sound
      simpa [nodes, IsRegular] using hsound
  | comment value =>
      have hsound : breaksComment value.text.toList = false := (h _ (mem_nodes _)).sound
      simpa [nodes, IsRegular] using (breaksComment_eq_false_iff value.text.toList).mp hsound
  | doctype d => exact (h _ (mem_nodes _)).sound.elim

theorem areRegular_of_made {checked : Bool} {ns : List Node}
    (h : ∀ m ∈ nodesList ns, m.IsMade checked) :
  ∀ m ∈ nodesList ns, m.IsRegular
  := by
  cases ns with
  | nil => simp [nodesList]
  | cons n ns =>
      rw [forall_nodesList_cons] at h ⊢
      exact ⟨isRegular_of_made h.1, areRegular_of_made h.2⟩

end

/-- Nodes that can be written, as reading leaves them, are of a form that calls give to nodes. -/
theorem areMade_of_writable {a : Reading.Alphabet} {d : Reading.Declarations}
    {scope : Option String} {ns : List Node} (h : AreWritable a d scope ns)
    (hread : ∀ m ∈ nodesList ns, m.IsAsRead d) :
  ∀ m ∈ nodesList ns, m.IsMade false
  := by
  intro m hm
  obtain ⟨inner, hwritable⟩ := h.nodes m hm
  refine ⟨hwritable.isSound, ?_, by simp⟩
  cases m with
  | element name attributes children =>
      have hspace : name.space ≠ some "" := (hread _ hm).1
      simpa [name?] using hspace
  | _ => simp [name?]

/-- The nodes that calls added at the top level are regular. -/
theorem IsAdded.isRegular {checked : Bool} {n : Node} (h : n.IsAdded checked) :
  ∀ m ∈ n.nodes, m.IsRegular
  := by
  rcases h with ⟨hdoctype, _⟩ | hmade
  · cases n with
    | doctype d => simp [nodes, IsRegular]
    | _ => cases hdoctype
  · exact isRegular_of_made hmade

/-- The nodes that calls added at the top level bear names, if names are checked. -/
theorem IsAdded.isNamed {checked : Bool} {n : Node} (h : n.IsAdded checked) (hchecked : checked) :
  ∀ m ∈ n.nodes, m.isNamed
  := by
  rcases h with ⟨hdoctype, hnamed⟩ | hmade
  · cases n with
    | doctype d => simpa [nodes] using hnamed hchecked
    | _ => cases hdoctype
  · exact fun m hm => (hmade m hm).named hchecked

end Node

/-! ### Documents -/

/-- A document that keeps to the rules: its top level is in order, its nodes are of the kind that
documents consist of, and every node stands in one place, so that the document is given back by
the forest in which each node is made and attached once. -/
structure Document.IsRegular (d : Document) : Prop where
  ordered : d.IsOrdered
  nodes : ∀ m ∈ d.nodes, m.IsRegular
  planted : ∃ f, d.plant = .ok f ∧ f.Holds d

theorem Document.isRegular_of_ordered {d : Document} (h : d.IsOrdered)
    (hnodes : ∀ m ∈ d.nodes, m.IsRegular) :
  d.IsRegular
  := ⟨h, hnodes, h.exists_forest⟩

/-- What stands before the root is regular. -/
theorem Reading.IsFront.isRegular {m : Reading.Medium} {standalone : Bool} {front : List Node}
    {d : Reading.Declarations} (h : Reading.IsFront m standalone front d) :
  ∀ n ∈ Node.nodesList front, n.IsRegular
  := by
  have hnotes {ns : List Node} (hns : ∀ n ∈ ns, n.IsNote) :
      ∀ n ∈ Node.nodesList ns, n.IsRegular := by
    intro n hn
    obtain ⟨k, hk, hn⟩ := Node.mem_nodesList.mp hn
    have hnote := hns k hk
    obtain ⟨value, rfl⟩ := hnote.exists_comment
    rw [Node.nodes, List.mem_singleton] at hn
    subst hn
    exact (breaksComment_eq_false_iff value.toList).mp hnote.2.1
  cases h with
  | bare hns => exact hnotes hns
  | typed hbefore hafter _ _ =>
      rw [Node.nodesList_append, List.forall_mem_append, Node.forall_nodesList_cons]
      exact ⟨hnotes hbefore, by simp [Node.nodes, Node.IsRegular], hnotes hafter⟩

/-- A document that a reader accepts is regular. -/
theorem Document.isRegular_of_read {source : Source} {d : Document}
    (h : readDocument source = .ok d) :
  d.IsRegular
  := by
  obtain ⟨m, declarations, front, others, haccepted, _⟩ := readDocument_ok h
  apply isRegular_of_ordered haccepted.ordered
  rw [nodes, haccepted.children, Node.nodesList_append, List.forall_mem_append]
  exact ⟨haccepted.front.isRegular, Node.areRegular_of_made
    (Node.areMade_of_writable haccepted.others.writable haccepted.others.read)⟩

/-- Adding nodes to a regular document keeps it regular. -/
theorem Node.AreBuilt.isRegular {checked : Bool} {start d : Document}
    (h : Node.AreBuilt checked start.children d.children)
    (hstart : ∀ m ∈ start.nodes, m.IsRegular) :
  d.IsRegular
  := by
  obtain ⟨others, hchildren, hadded⟩ := h.added
  apply Document.isRegular_of_ordered (h.ordered.declare d.declaration)
  rw [Document.nodes, hchildren, nodesList_append, List.forall_mem_append]
  refine ⟨hstart, ?_⟩
  intro m hm
  obtain ⟨n, hn, hm⟩ := mem_nodesList.mp hm
  exact (hadded n hn).isRegular m hm

/-! ### Sites -/

namespace Site

/-- A site around which nodes were only added to those of a first document, and where nodes that
are added to the children are made and attached to one container of the forest. -/
structure IsWithin (settings : Settings) (start : List Node) (s : Site) (h : Sheet) : Prop where
  same : s.settings = settings
  plain : s.IsPlain
  sound : s.Sound start h
  whole (after : Sheet) : s.Sound start after →
    Node.AreBuilt settings.checkNames.counts start (s.around after.children)
  attached (declaration : Option Declaration) : ∃ (first : Except Fault Forest) (container : Nat),
    ∀ children, Forest.plantAll 0 (s.around children) (.ofDeclaration declaration)
      = first.bind (Forest.plantAll container children)

variable {settings : Settings} {start : List Node}

theorem isWithin_top (settings : Settings) {d : Document} (h : d.IsOrdered) :
  (top settings).IsWithin settings d.children { declaration := d.declaration, children := d.children }
  where
    same := rfl
    plain _ _ := rfl
    sound := Node.areBuilt_refl h
    whole _ h := h
    attached declaration := ⟨.ok (.ofDeclaration declaration), 0, fun _ => rfl⟩

/-- What is added in a fragment is attached to the element of the fragment. -/
theorem attached_inside {s : Site} {declaration : Option Declaration}
    (h : ∃ (first : Except Fault Forest) (container : Nat),
      ∀ children, Forest.plantAll 0 (s.around children) (.ofDeclaration declaration)
        = first.bind (Forest.plantAll container children))
    (before : List Node) {element : Node} (he : element.isElement) :
  ∃ (first : Except Fault Forest) (container : Nat), ∀ children,
    Forest.plantAll 0 ((s.inside before element).around children) (.ofDeclaration declaration)
      = first.bind (Forest.plantAll container children)
  := by
  obtain ⟨first, container, heq⟩ := h
  cases element with
  | element name attributes others =>
      have hsplit (children : List Node) : Forest.plantAll 0
          ((s.inside before (.element name attributes others)).around children)
          (.ofDeclaration declaration)
          = (first.bind (Forest.plantAll container before)).bind
              (Forest.plant container (.element name attributes children)) := by
        have hlast (f : Forest) : Forest.plantAll container [.element name attributes children] f
            = Forest.plant container (.element name attributes children) f := by
          simp only [Forest.plantAll, bind, Except.bind]
          cases Forest.plant container (.element name attributes children) f <;> rfl
        rw [Site.inside]
        dsimp only
        rw [heq, Node.withChildren]
        cases first with
        | error f => rfl
        | ok f =>
            simp only [Except.bind, Forest.plantAll_append]
            cases Forest.plantAll container before f with
            | error g => rfl
            | ok g => exact hlast g
      cases hbefore : first.bind (Forest.plantAll container before) with
      | error f =>
          refine ⟨.error f, container, fun children => ?_⟩
          rw [hsplit, hbefore]
          rfl
      | ok f =>
          refine ⟨f.make container (.element name attributes []), f.size, fun children => ?_⟩
          rw [hsplit, hbefore]
          rfl
  | _ => cases he

theorem IsWithin.inside {s : Site} {h : Sheet} (within : s.IsWithin settings start h)
    {records : List Log.Record} {v : Value} {given : List Value} {named : List (String × Value)}
    {element : Node} {takesBuilder : Bool}
    (hs : s.startElement h v given named
      = ({ h with records := records }, .ok (element, .fragment takesBuilder))) :
  (s.inside h.children element).IsWithin settings start
    { h with records := records, children := element.children }
  where
    same := within.same
    plain := s.isPlain_inside h.children element
    sound := sound_begun hs
    whole after hafter :=
      within.whole { after with children := h.children ++ [element.withChildren after.children] }
        (sound_fragment within.plain within.sound hs hafter rfl)
    attached declaration := by
      obtain ⟨_, _, _, helement, _⟩ := startElement_ok hs
      exact attached_inside (within.attached declaration) h.children
        (Builder.isElement_of_elementOf helement)

/-- At every moment nodes were only added to those of the first document. -/
theorem lasts_within (settings : Settings) (start : List Node) :
  Lasts (fun s h after => s.IsPlain → s.Sound start h → s.Sound start after)
    fun s _ h => s.IsWithin settings start h
  where
    kept := kept_sound start
    along _ within hkept :=
      ⟨within.same, within.plain, hkept within.plain within.sound, within.whole,
        within.attached⟩
    enter _ within hs := within.inside hs

end Site

/-! ### States -/

/-- A state in order, with respect to the document `start` that building began with.  The document
is regular; nodes were added behind those of the first one, with names that are names where names
are checked; and a node that is attached to the draft is made and attached to one container of
the forest, whichever it is. -/
structure Run.IsRegular (settings : Settings) (start : Document) (r : Run) : Prop where
  document : r.builder.draft.document.IsRegular
  added : ∃ others, r.builder.draft.document.children = start.children ++ others
    ∧ (settings.checkNames.counts → ∀ m ∈ Node.nodesList others, m.isNamed)
  attached : ∃ container, ∀ n after, r.builder.draft.append n = .ok after →
    r.builder.draft.document.plant.bind (Forest.plant container n) = after.document.plant

/-- Whatever steps do, and wherever they fail, the document of every state that they lead to is
regular, if building began with an empty document or with one that a reader returned. -/
theorem runs_stay_regular (settings : Settings) (records : List Log.Record) {start : Document}
    (hstart : start = {} ∨ ∃ source, readDocument source = .ok start) {r : Run}
    (hr : Run.LeadsTo ⟨Builder.ofDocument start settings records, []⟩ r) :
  r.IsRegular settings start
  := by
  have hregular : start.IsRegular := by
    rcases hstart with rfl | ⟨source, hsource⟩
    · exact Document.isRegular_of_ordered (Document.isOrdered_nil none)
        (by simp [Document.nodes, Node.nodesList])
    · exact Document.isRegular_of_read hsource
  have hbegun : Site.Holds (fun s _ h => s.IsWithin settings start.children h)
      ⟨Builder.ofDocument start settings records, []⟩ := by
    refine ⟨Site.top settings, [], ⟨start.declaration, start.children, records, []⟩,
      Site.top_fits settings, rfl, ?_⟩
    have htop := Site.isWithin_top settings hregular.ordered
    exact ⟨rfl, htop.plain, htop.sound, htop.whole, htop.attached⟩
  obtain ⟨s, opened, h, fits, rfl, within⟩ :=
    (Site.lasts_within settings start.children).holds hbegun hr
  have hbuilt := within.whole h within.sound
  constructor
  · exact Node.AreBuilt.isRegular (d := s.document h) hbuilt hregular.nodes
  · obtain ⟨others, hchildren, hadded⟩ := hbuilt.added
    refine ⟨others, hchildren, fun hchecks m hm => ?_⟩
    obtain ⟨n, hn, hm⟩ := Node.mem_nodesList.mp hm
    exact (hadded n hn).isNamed hchecks m hm
  · obtain ⟨first, container, hplant⟩ := within.attached h.declaration
    refine ⟨container, ?_⟩
    intro n after hafter
    rw [fits.append] at hafter
    obtain ⟨h', hadd, rfl⟩ := Reading.map_ok hafter
    obtain ⟨_, rfl⟩ := Site.add_ok hadd
    have hwhole (children : List Node) :
        Document.plant ⟨h.declaration, s.around children⟩
          = first.bind (Forest.plantAll container children) :=
      hplant children
    change (Document.plant ⟨h.declaration, s.around h.children⟩).bind _
      = Document.plant ⟨h.declaration, s.around (h.children ++ [n])⟩
    rw [hwhole, hwhole]
    cases first with
    | error f => rfl
    | ok f =>
        simp only [Except.bind, Forest.plantAll_append]
        cases Forest.plantAll container h.children f with
        | error g => rfl
        | ok g =>
            simp only [Forest.plantAll, bind, Except.bind]
            cases Forest.plant container n g <;> rfl

/-- A comment and a second root behind a document type and a root that were read; the second root
is refused. -/
theorem runs_stay_regular_behind_root :
  let start : Document := ⟨none, [.doctype { name := "a" },
    .element ⟨"a", some "u", by decide, none⟩ [] [.text "z"]]⟩
  let steps : List Step := [.call "Comment" [.str "x"] [], .call "Tag" [.str "b"] []]
  let r := (Run.step ⟨Builder.ofDocument start {} [], []⟩ none (.attempt steps)).1
  r.IsRegular {} start ∧ r.builder.draft.document.nodes.length = 4
  := by
  intro start steps r
  have hread : readDocument (.text "<!DOCTYPE a><a xmlns='u'>z</a>") = .ok start := by
    rfl
  exact ⟨runs_stay_regular {} [] (.inr ⟨_, hread⟩) (.step none _ .refl), by decide⟩

end XmlDraft
