import XmlDraft.Proofs.Phases
import XmlDraft.Proofs.Writable

/-!
# The tree in layers

While a document is put together its tree stands in layers: the children of the open elements, the
innermost first, and then the nodes at the top level.  An event opens a layer or closes the first
one, puts a node at its end or goes on with a text there, or leaves the layers alone.  What none of
these ends holds after any events.  Main statements: texts stand apart and nothing is empty, a text
that has been put stays and can only grow, and the CDATA nodes are the sections that are not empty,
in their order.
-/

namespace XmlDraft

namespace Node

/-- A node as it is put together: the texts among the children of an element stand apart, and a text
or a CDATA node is not empty. -/
def IsWhole : Node → Prop
  | .element _ _ children => children.IsChain StandApart
  | .text s => s ≠ ""
  | .cdata s => s ≠ ""
  | _ => True

/-- The text of a CDATA node. -/
def cdata? : Node → Option String
  | .cdata s => some s
  | _ => none

/-- A node without children that is no text and not empty. -/
structure IsLeaf (n : Node) : Prop where
  nodes : n.nodes = [n]
  other : n.isText = false
  whole : n.IsWhole

end Node

namespace Reading

/-- The character data before the end of a section. -/
def sectionData : List Event → List Char
  | .characters cs :: es => cs ++ sectionData es
  | .cdataEnd :: _ => []
  | _ :: es => sectionData es
  | [] => []

/-- The data of the CDATA sections among events, in their order. -/
def sections : List Event → List (List Char)
  | .cdataStart :: es => sectionData es :: sections es
  | _ :: es => sections es
  | [] => []

/-- The texts of sections that are not empty. -/
def filled (ds : List (List Char)) : List String :=
  (ds.filter (· ≠ [])).map String.ofList

namespace Assembly

open Node (nodesList)

/-! ### Layers -/

/-- The children of the open elements, the innermost first, and the nodes at the top level. -/
def layers (a : Assembly) : List (List Node) :=
  a.opened.map (·.children) ++ [a.document.children]

/-- What an event does to the layers, and the node that it puts if it is a leaf. -/
inductive Grows : List (List Node) → Option Node → List (List Node) → Prop
  | stay (ls : List (List Node)) : Grows ls none ls
  /-- An element is opened. -/
  | down (ls : List (List Node)) : Grows ls none ([] :: ls)
  /-- An element is closed, and put at the end of the layer around it. -/
  | up (name : QName) (attributes : Attributes) (inner outer : List Node) (ls : List (List Node)) :
      Grows (inner :: outer :: ls) none ((outer ++ [.element name attributes inner]) :: ls)
  | text {s : String} (hs : s ≠ "") (l : List Node) (ls : List (List Node)) :
      Grows (l :: ls) none (join l s :: ls)
  | leaf {n : Node} (hn : n.IsLeaf) (l : List Node) (ls : List (List Node)) :
      Grows (l :: ls) (some n) ((l ++ [n]) :: ls)

/-- The text of the CDATA node that an event puts, if it puts one. -/
def ended? (a : Assembly) : Event → Option String
  | .cdataEnd => a.openSection.bind fun s => if s = "" then none else some s
  | _ => none

variable {a b : Assembly} {e : Event} {es : List Event} {n : Node} {n? : Option Node}
  {ls ls' : List (List Node)}

/-- A node is attached at the end of the first layer. -/
theorem attach_layers (h : a.attach n = .ok b) :
  ∃ l ls, a.layers = l :: ls ∧ b.layers = (l ++ [n]) :: ls
  := by
  unfold attach at h
  split at h
  · next o others ho =>
      cases h
      exact ⟨o.children, _, by rw [layers, ho]; rfl, rfl⟩
  · next ho =>
      obtain ⟨document, happend, heq⟩ := map_ok h
      obtain ⟨_, rfl⟩ := Document.append_ok (mapError_ok happend)
      cases heq
      exact ⟨a.document.children, [], by rw [layers, ho]; rfl, by rw [layers, ho]; rfl⟩

/-- A leaf that is attached is put. -/
theorem grows_attach (h : a.attach n = .ok b) (hn : n.IsLeaf) :
  Grows a.layers (some n) b.layers
  := by
  obtain ⟨l, ls, ha, hb⟩ := attach_layers h
  rw [ha, hb]
  exact .leaf hn l ls

/-- Every event does one thing to the layers, and only the end of a section puts a CDATA node. -/
theorem step_grows (hdata : ∀ cs, e = .characters cs → cs ≠ []) (h : a.step e = .ok b) :
  ∃ n?, Grows a.layers n? b.layers ∧ n?.bind Node.cdata? = a.ended? e
  := by
  cases e with
  | start tag =>
      simp only [step, openTag] at h
      split at h
      · cases h
      · cases h
        exact ⟨none, .down a.layers, rfl⟩
  | finish =>
      simp only [step, closeTag] at h
      split at h
      · next o others ho =>
          obtain ⟨outer, ls, hbefore, hafter⟩ := attach_layers h
          have ha : a.layers = o.children :: outer :: ls := by
            rw [layers, ho, ← hbefore]
            rfl
          rw [ha, hafter]
          exact ⟨none, .up o.name o.attributes o.children outer ls, rfl⟩
      · cases h
        exact ⟨none, .stay _, rfl⟩
  | characters cs =>
      have hs : String.ofList cs ≠ "" := mt String.ofList_eq_empty_iff.mp (hdata cs rfl)
      cases h
      unfold addCharacters
      split
      · exact ⟨none, .stay _, rfl⟩
      · split
        · next o others ho =>
            refine ⟨none, ?_, rfl⟩
            rw [show a.layers = o.children :: _ by rw [layers, ho]; rfl]
            exact .text hs o.children _
        · exact ⟨none, .stay _, rfl⟩
  | comment text =>
      simp only [step, addComment] at h
      split_ifs at h
      · cases h
        exact ⟨none, .stay _, rfl⟩
      · exact ⟨_, grows_attach h ⟨rfl, rfl, trivial⟩, rfl⟩
  | doctypeEnd =>
      simp only [step, closeDoctype] at h
      split at h
      · cases h
        exact ⟨none, .stay _, rfl⟩
      · have hput := grows_attach h ⟨rfl, rfl, trivial⟩
        exact ⟨_, hput, rfl⟩
  | cdataEnd =>
      simp only [step, closeSection] at h
      split at h
      · next s hs =>
          split_ifs at h with hempty
          · cases h
            exact ⟨none, .stay _, by simp [ended?, hs, hempty]⟩
          · have hput := grows_attach h ⟨rfl, rfl, hempty⟩
            exact ⟨_, hput, by simp [ended?, hs, hempty, Node.cdata?]⟩
      · next hs =>
          cases h
          exact ⟨none, .stay _, by simp [ended?, hs]⟩
  | declaration | doctypeStart | instruction | cdataStart | plain | unresolved =>
      cases h
      exact ⟨none, .stay _, rfl⟩

/-- What nothing that an event does to the layers ends, holds after any events. -/
theorem run_layers {P : List (List Node) → Prop}
    (hgrows : ∀ {ls n? ls'}, Grows ls n? ls' → P ls → P ls') (hdata : HasData es)
    (h : a.run es = .ok b) (ha : P a.layers) :
  P b.layers
  := by
  induction es generalizing a with
  | nil =>
      cases h
      exact ha
  | cons e es ih =>
      obtain ⟨hfirst, hothers⟩ := hasData_cons.mp hdata
      obtain ⟨next, hstep, hrun⟩ := bind_ok h
      obtain ⟨_, hnext, _⟩ := step_grows hfirst hstep
      exact ih hothers hrun (hgrows hnext ha)

/-! ### Whole nodes -/

/-- Layers in which texts stand apart, and all nodes of which are whole. -/
def AreWhole (ls : List (List Node)) : Prop :=
  ∀ l ∈ ls, l.IsChain Node.StandApart ∧ ∀ n ∈ nodesList l, n.IsWhole

/-- Layers that are whole stay so. -/
theorem Grows.areWhole (h : Grows ls n? ls') (hls : AreWhole ls) :
  AreWhole ls'
  := by
  cases h with
  | stay => exact hls
  | down ls => exact List.forall_mem_cons.mpr ⟨⟨List.isChain_nil, by simp [nodesList]⟩, hls⟩
  | up name attributes inner outer ls =>
      obtain ⟨⟨hinner, hnodes⟩, ⟨houter, hbefore⟩, hothers⟩ :=
        (List.forall_mem_cons.mp hls).imp_right List.forall_mem_cons.mp
      refine List.forall_mem_cons.mpr ⟨⟨?_, ?_⟩, hothers⟩
      · exact Node.isChain_concat houter fun _ _ => .inr rfl
      · rw [Node.nodesList_append, List.forall_mem_append, Node.forall_nodesList_cons,
          Node.forall_nodes_element]
        exact ⟨hbefore, ⟨hinner, hnodes⟩, by simp [nodesList]⟩
  | @text s hs l ls =>
      obtain ⟨⟨hapart, hnodes⟩, hothers⟩ := List.forall_mem_cons.mp hls
      refine List.forall_mem_cons.mpr ⟨⟨Node.isChain_join hapart s, ?_⟩, hothers⟩
      rcases lastText_cases l with ⟨before, t, rfl⟩ | hlast
      · rw [Node.nodesList_append, List.forall_mem_append] at hnodes
        rw [join_text, Node.nodesList_append, List.forall_mem_append]
        exact ⟨hnodes.1, by simp [nodesList, Node.nodes, Node.IsWhole, hs]⟩
      · rw [join_other hlast, Node.nodesList_append, List.forall_mem_append]
        exact ⟨hnodes, by simpa [nodesList, Node.nodes, Node.IsWhole] using hs⟩
  | leaf hn l ls =>
      obtain ⟨⟨hapart, hnodes⟩, hothers⟩ := List.forall_mem_cons.mp hls
      refine List.forall_mem_cons.mpr ⟨⟨?_, ?_⟩, hothers⟩
      · exact Node.isChain_concat hapart fun _ _ => .inr hn.other
      · rw [Node.nodesList_append, List.forall_mem_append, Node.forall_nodesList_cons, hn.nodes]
        exact ⟨hnodes, by simpa using hn.whole, by simp [nodesList]⟩

/-! ### Texts that stay -/

/-- Layers in which a text stands, perhaps with more before and behind it in the same node. -/
def Hold (s : String) (ls : List (List Node)) : Prop :=
  ∃ l ∈ ls, ∃ before after, .text (before ++ s ++ after) ∈ nodesList l

/-- A text that stands in the layers stays there. -/
theorem Grows.hold {s : String} (h : Grows ls n? ls') (hls : Hold s ls) :
  Hold s ls'
  := by
  obtain ⟨k, hk, before, after, hmem⟩ := hls
  cases h with
  | stay => exact ⟨k, hk, before, after, hmem⟩
  | down ls => exact ⟨k, List.mem_cons_of_mem _ hk, before, after, hmem⟩
  | up name attributes inner outer ls =>
      have hput : .text (before ++ s ++ after)
          ∈ nodesList (outer ++ [.element name attributes inner]) ∨ k ∈ ls := by
        rcases List.mem_cons.mp hk with rfl | hk
        · exact .inl (by simp [Node.nodesList_append, nodesList, Node.nodes, hmem])
        · rcases List.mem_cons.mp hk with rfl | hk
          · exact .inl (by simp [Node.nodesList_append, hmem])
          · exact .inr hk
      rcases hput with hput | hk
      · exact ⟨_, List.mem_cons_self, before, after, hput⟩
      · exact ⟨k, List.mem_cons_of_mem _ hk, before, after, hmem⟩
  | @text t _ l ls =>
      rcases List.mem_cons.mp hk with rfl | hk
      · rcases lastText_cases k with ⟨others, u, rfl⟩ | hlast
        · rw [Node.nodesList_append, List.mem_append] at hmem
          refine ⟨_, List.mem_cons_self, ?_⟩
          rw [join_text, Node.nodesList_append]
          rcases hmem with hmem | hmem
          · exact ⟨before, after, List.mem_append_left _ hmem⟩
          · -- the text is the one that goes on
            obtain rfl : before ++ s ++ after = u := by
              simpa [nodesList, Node.nodes] using hmem
            exact ⟨before, after ++ t, by simp [nodesList, Node.nodes, String.append_assoc]⟩
        · refine ⟨_, List.mem_cons_self, before, after, ?_⟩
          rw [join_other hlast, Node.nodesList_append]
          exact List.mem_append_left _ hmem
      · exact ⟨k, List.mem_cons_of_mem _ hk, before, after, hmem⟩
  | leaf _ l ls =>
      rcases List.mem_cons.mp hk with rfl | hk
      · refine ⟨_, List.mem_cons_self, before, after, ?_⟩
        rw [Node.nodesList_append]
        exact List.mem_append_left _ hmem
      · exact ⟨k, List.mem_cons_of_mem _ hk, before, after, hmem⟩

/-- A text that goes on in a layer stands there. -/
theorem hold_join (s : String) (l : List Node) (ls : List (List Node)) :
  Hold s (join l s :: ls)
  := by
  refine ⟨_, List.mem_cons_self, ?_⟩
  rcases lastText_cases l with ⟨before, t, rfl⟩ | hlast
  · exact ⟨t, "", by simp [join_text, Node.nodesList_append, nodesList, Node.nodes]⟩
  · exact ⟨"", "", by simp [join_other hlast, Node.nodesList_append, nodesList, Node.nodes]⟩

/-! ### Sections -/

/-- The texts of the CDATA nodes of layers, in document order. -/
def cdataOf (ls : List (List Node)) : List String :=
  (ls.reverse.flatMap nodesList).filterMap Node.cdata?

theorem cdataOf_cons (l : List Node) (ls : List (List Node)) :
  cdataOf (l :: ls) = cdataOf ls ++ (nodesList l).filterMap Node.cdata?
  := by
  simp [cdataOf]

/-- No CDATA node is added or lost but the one that is put. -/
theorem Grows.cdataOf (h : Grows ls n? ls') :
  cdataOf ls' = cdataOf ls ++ (n?.bind Node.cdata?).toList
  := by
  cases h with
  | stay => simp
  | down ls => simp [cdataOf_cons, nodesList]
  | up name attributes inner outer ls =>
      simp [cdataOf_cons, Node.nodesList_append, nodesList, Node.nodes, List.filterMap_cons,
        Node.cdata?]
  | @text s _ l ls =>
      rcases lastText_cases l with ⟨before, t, rfl⟩ | hlast
      · simp [cdataOf_cons, join_text, Node.nodesList_append, nodesList, Node.nodes,
          List.filterMap_cons, Node.cdata?]
      · simp [cdataOf_cons, join_other hlast, Node.nodesList_append, nodesList, Node.nodes,
          List.filterMap_cons, Node.cdata?]
  | @leaf n hn l ls =>
      rw [cdataOf_cons, cdataOf_cons, Node.nodesList_append, List.filterMap_append,
        List.append_assoc]
      congr 2
      cases hcdata : n.cdata? <;> simp [nodesList, hn.nodes, hcdata]

/-- The data of the section that is open, if one is, and of those that are still to come. -/
def awaited (a : Assembly) (es : List Event) : List (List Char) :=
  (a.openSection.map (·.toList ++ sectionData es)).toList ++ sections es

theorem awaited_closed (ha : a.openSection = none) (es : List Event) :
  a.awaited es = sections es
  := by
  rw [awaited, ha]
  rfl

/-- No section is open in a phase other than those of sections. -/
theorem Fits.closed {p : Phase} (ha : a.Fits p) (hp : ∀ depth, p ≠ .cdata depth) :
  a.openSection = none
  := by
  cases p with
  | beginning => exact ha.2.closed
  | front mayType => exact ha.2.closed
  | doctype hasSubset => exact ha.2.2.closed
  | content depth => exact ha.2.closed
  | cdata depth => exact absurd rfl (hp depth)
  | behind => exact ha.2.1

end Assembly

open Assembly (Fits)

/-- An event puts the section that it ends, and leaves those that are awaited behind it. -/
theorem Follows.awaited {a b : Assembly} {p q : Phase} {e : Event} (h : Follows p e q)
    (ha : a.Fits p) (hstep : a.step e = .ok b) (hb : b.Fits q) (es : List Event) :
  (a.ended? e).toList ++ filled (b.awaited es) = filled (a.awaited (e :: es))
  := by
  -- outside of sections an event ends none and no data is kept
  have houtside (hp : ∀ depth, p ≠ .cdata depth) (hq : ∀ depth, q ≠ .cdata depth)
      (hended : a.ended? e = none) (hsections : sections (e :: es) = sections es) :
      (a.ended? e).toList ++ filled (b.awaited es) = filled (a.awaited (e :: es)) := by
    rw [hended, Assembly.awaited_closed (ha.closed hp), Assembly.awaited_closed (hb.closed hq),
      hsections]
    rfl
  have haside (hp : p.begun.allowsAsides) (depth : Nat) :
      p ≠ .cdata depth ∧ p.begun ≠ .cdata depth := by
    cases p <;> simp_all [Phase.begun, Phase.allowsAsides]
  have hbegun {mayType : Bool} (hp : p.begun = .front mayType) (depth : Nat) :
      p ≠ .cdata depth := by
    rintro rfl
    cases hp
  cases h with
  | sectionStart depth =>
      cases hstep
      rw [Assembly.awaited_closed ha.2.closed]
      rfl
  | sectionCharacters depth cs =>
      obtain ⟨s, hs⟩ := Option.isSome_iff_exists.mp ha.2.section_
      cases hstep
      simp [Assembly.ended?, Assembly.awaited, Assembly.addCharacters, hs, sectionData, sections]
  | sectionEnd depth =>
      obtain ⟨s, hs⟩ := Option.isSome_iff_exists.mp ha.2.section_
      rw [Assembly.awaited_closed hb.2.closed]
      by_cases hempty : s = ""
      · simp [Assembly.ended?, Assembly.awaited, hs, hempty, sectionData, sections, filled]
      · simp [Assembly.ended?, Assembly.awaited, hs, hempty, sectionData, sections, filled]
  | declaration => exact houtside (by simp) (by simp) rfl rfl
  | comment hp => exact houtside (haside hp · |>.1) (haside hp · |>.2) rfl rfl
  | instruction _ _ _ hp => exact houtside (haside hp · |>.1) (haside hp · |>.2) rfl rfl
  | plain _ hp => exact houtside (haside hp · |>.1) (haside hp · |>.2) rfl rfl
  | doctypeStart _ _ _ _ hp => exact houtside (hbegun hp) (by simp) rfl rfl
  | doctypeEnd => exact houtside (by simp) (by simp) rfl rfl
  | root hp => exact houtside (hbegun hp) (by simp) rfl rfl
  | start => exact houtside (by simp) (by simp) rfl rfl
  | finish depth => exact houtside (by simp) (by cases depth <;> simp [Phase.within]) rfl rfl
  | characters => exact houtside (by simp) (by simp) rfl rfl
  | unresolved => exact houtside (by simp) (by simp) rfl rfl

/-- The CDATA nodes that events in order add are the sections that are not empty. -/
theorem Proceeds.cdataOf {a b : Assembly} {p q : Phase} {es : List Event} (h : Proceeds p es q)
    (ha : a.Fits p) (hdata : HasData es) (hrun : a.run es = .ok b) (hb : b.openSection = none) :
  Assembly.cdataOf b.layers = Assembly.cdataOf a.layers ++ filled (a.awaited es)
  := by
  -- what is awaited before an event is what it ends and what is awaited behind it
  induction h generalizing a with
  | nil p =>
      cases hrun
      rw [Assembly.awaited_closed hb]
      simp [sections, filled]
  | @cons p q r e es hfollows _ ih =>
      obtain ⟨hfirst, hothers⟩ := hasData_cons.mp hdata
      obtain ⟨next, hstep, hnext⟩ := hfollows.step ha
      obtain ⟨n?, hgrows, hended⟩ := Assembly.step_grows hfirst hstep
      rw [Assembly.run, hstep] at hrun
      rw [ih hnext hothers hrun, hgrows.cdataOf, hended, List.append_assoc,
        hfollows.awaited ha hstep hnext]

end Reading

end XmlDraft
