import XmlDraft.Proofs.Order
import XmlDraft.Proofs.Paths
import XmlDraft.Proofs.Planting
import Mathlib.Data.List.Forall2

/-!
# Walking through a planted document

A visit of a document counts the levels and the siblings on its way down.  In a forest they are
found from below: a node remembers the container that it was attached to, and the depth and the
path of an element are made up of the elements that are met from one container to the next.  Main
statements: a walk through the forest of a document meets the elements of a visit in the same
order, each with the depth and the path there that the visit gives it; and so, at every moment of a
session that begins with an empty document, the records of creations tell what the walk meets.
-/

namespace XmlDraft

namespace Node

mutual

/-- The numbers of the elements of a tree in document order, if its nodes are numbered from a given
one on. -/
def elementNumbers (i : Nat) : Node → List Nat
  | .element _ _ children => i :: elementNumbersFrom (i + 1) children
  | .text _ => []
  | .cdata _ => []
  | .comment _ => []
  | .doctype _ => []

/-- The numbers of the elements of several trees in document order. -/
def elementNumbersFrom (i : Nat) : List Node → List Nat
  | [] => []
  | n :: ns => elementNumbers i n ++ elementNumbersFrom (i + n.nodes.length) ns

end

theorem nodes_pos (n : Node) :
  0 < n.nodes.length
  := by
  cases n <;> exact Nat.succ_pos _

/-- Numbers are given one behind another. -/
theorem lt_of_mem_numbersFrom {i j : Nat} {ns : List Node} (h : j ∈ numbersFrom i ns) :
  j < i + (nodesList ns).length
  := by
  induction ns generalizing i with
  | nil => cases h
  | cons n ns ih =>
      have hpos := n.nodes_pos
      rw [nodesList, List.length_append]
      rcases List.mem_cons.mp h with rfl | h
      · omega
      · have hlt := ih h
        omega

end Node

open Node (numbersFrom plantsFrom plantsFromAll elementNumbers elementNumbersFrom)

namespace Forest

variable {f : Forest} {container i : Nat} {n : Node} {ns : List Node}

/-! ### Nodes of a forest -/

/-- The nodes of a forest from a number on are those of trees that are attached to a container. -/
def Bears (f : Forest) (container i : Nat) (ns : List Node) : Prop :=
  ∃ before after, before.length = i ∧ f.plants = before ++ plantsFromAll container i ns ++ after

namespace Bears

theorem append {before after : List Node} (h : f.Bears container i (before ++ after)) :
  f.Bears container i before
    ∧ f.Bears container (i + (Node.nodesList before).length) after
  := by
  obtain ⟨front, behind, rfl, h⟩ := h
  rw [Node.plantsFromAll_append] at h
  refine ⟨⟨front, _, rfl, by simpa using h⟩,
    front ++ plantsFromAll container front.length before, behind, ?_, by simpa using h⟩
  rw [List.length_append, Node.length_plantsFromAll]

theorem others (h : f.Bears container i (n :: ns)) :
  f.Bears container (i + n.nodes.length) ns
  := by
  have hboth : f.Bears container i ([n] ++ ns) := h
  simpa [Node.nodesList] using hboth.append.2

/-- The first node is attached to the container. -/
theorem parent (h : f.Bears container i (n :: ns)) :
  f.parent? i = some container
  := by
  obtain ⟨front, behind, rfl, h⟩ := h
  cases n <;> simp [parent?, h, plantsFromAll, plantsFrom]

/-- The first node has its name. -/
theorem name (h : f.Bears container i (n :: ns)) :
  (f.cell? i).bind Cell.name? = n.name?
  := by
  obtain ⟨front, behind, rfl, h⟩ := h
  cases n <;> simp [cell?, h, plantsFromAll, plantsFrom] <;> rfl

theorem isElement (h : f.Bears container i (n :: ns)) :
  f.isElement i = n.name?.isSome
  := by
  rw [Forest.isElement, ← h.name]
  cases f.cell? i <;> rfl

/-- The first node is read back. -/
theorem tree (h : f.Bears container i (n :: ns)) :
  f.treeWithin (f.size + 1) i = .ok n
  := by
  obtain ⟨front, behind, rfl, h⟩ := h
  rw [plantsFromAll] at h
  have hsize : n.nodes.length ≤ f.size + 1 := by
    rw [size, h]
    simp only [List.length_append, Node.length_plantsFrom]
    omega
  exact treeWithin_plants front _ container n (by simpa using h) hsize

variable {name : QName} {attributes : Attributes} {children : List Node}

theorem cell (h : f.Bears container i (.element name attributes children :: ns)) :
  f.cell? i = some (.element name attributes (numbersFrom (i + 1) children))
  := by
  obtain ⟨front, behind, rfl, h⟩ := h
  simp [cell?, h, plantsFromAll, plantsFrom]

/-- The children of an element are attached to it, and stand behind it. -/
theorem inside (h : f.Bears container i (.element name attributes children :: ns)) :
  f.Bears i (i + 1) children
  := by
  obtain ⟨front, behind, rfl, h⟩ := h
  let plant : Plant :=
    ⟨.element name attributes (numbersFrom (front.length + 1) children), some container⟩
  let next := front.length + (Node.element name attributes children).nodes.length
  refine ⟨front ++ [plant], plantsFromAll container next ns ++ behind, by simp, ?_⟩
  simpa [plantsFromAll, plantsFrom, plant, next] using h

theorem lt_size (h : f.Bears container i (n :: ns)) :
  i < f.size
  := by
  obtain ⟨front, behind, rfl, h⟩ := h
  have hpos := n.nodes_pos
  rw [size, h]
  simp only [List.length_append, Node.length_plantsFromAll, Node.nodesList]
  omega

end Bears

/-! ### Walking down -/

/-- A walk that goes on with one more element. -/
def walkOn (f : Forest) (fuel : Nat) (seen : List Nat × Bool) (i : Nat) : List Nat × Bool :=
  if seen.2 then (seen.1 ++ i :: (f.walk fuel i).1, (f.walk fuel i).2) else seen

theorem walk_succ (f : Forest) (fuel i : Nat) :
  f.walk (fuel + 1) i = (f.elementsAmong (f.childrenOf i)).foldl (f.walkOn fuel) ([], true)
  := rfl

/-- A walk meets the elements among nodes, and those inside them, in document order. -/
theorem Bears.walk {f : Forest} {container i : Nat} {ns : List Node} (h : f.Bears container i ns)
    {fuel : Nat} (hfuel : (Node.nodesList ns).length ≤ fuel) (seen : List Nat) :
  (f.elementsAmong (numbersFrom i ns)).foldl (f.walkOn fuel) (seen, true)
    = (seen ++ elementNumbersFrom i ns, true)
  := by
  cases ns with
  | nil => simp [numbersFrom, elementsAmong, elementNumbersFrom]
  | cons n ns =>
      rw [Node.nodesList, List.length_append] at hfuel
      have hothers := fun seen => h.others.walk (Nat.le_of_add_left_le hfuel) seen
      cases n with
      | element name attributes children =>
          rw [Node.nodes, List.length_cons] at hfuel
          obtain ⟨fuel, rfl⟩ : ∃ k, fuel = k + 1 := ⟨fuel - 1, by omega⟩
          have hinside := h.inside.walk (show (Node.nodesList children).length ≤ fuel by omega) []
          have hchildren : numbersFrom (i + 1) children = f.childrenOf i := by
            rw [childrenOf, h.cell]
            rfl
          rw [hchildren, ← walk_succ, List.nil_append] at hinside
          have hstep : f.walkOn (fuel + 1) (seen, true) i
              = (seen ++ i :: elementNumbersFrom (i + 1) children, true) := by
            rw [walkOn, hinside]
            rfl
          simp only [elementsAmong] at hothers ⊢
          rw [numbersFrom, List.filter_cons_of_pos h.isElement, List.foldl_cons, hstep, hothers,
            elementNumbersFrom, elementNumbers, List.append_assoc]
      | _ =>
          simp only [elementsAmong] at hothers ⊢
          rw [numbersFrom, List.filter_cons_of_neg (by simp [h.isElement, Node.name?]), hothers,
            elementNumbersFrom, elementNumbers, List.nil_append]

/-! ### Looking up -/

/-- The depth and the path that an element has by the containers around it. -/
structure IsAt (f : Forest) (i depth : Nat) (path : String) : Prop where
  depth : ∀ fuel, i < fuel → f.depthWithin fuel i = .ok depth
  path : ∀ fuel, i < fuel → f.pathWithin fuel i = .ok path

/-- The elements of a name among nodes with some numbers. -/
def namedAmong (f : Forest) (name : QName) (children : List Nat) : List Nat :=
  (f.elementsAmong children).filter fun c => ((f.cell? c).bind Cell.name?).any name.same

theorem isAt_top {name : QName} (hname : (f.cell? i).bind Cell.name? = some name)
    (hparent : f.parent? i = some container) (htop : f.isElement container = false) :
  f.IsAt i 0 (pathStep "" name 1 1)
  where
    depth fuel hfuel := by
      cases fuel with
      | zero => cases hfuel
      | succ fuel => simp [depthWithin, hparent, htop]
    path fuel hfuel := by
      cases fuel with
      | zero => cases hfuel
      | succ fuel =>
          have hnone : (some container).filter f.isElement = none := by simp [Option.filter, htop]
          simp only [pathWithin, hname, hparent, hnone]

theorem IsAt.inside {depth : Nat} {path : String} {name : QName} {children : List Nat}
    (h : f.IsAt container depth path) (hlt : container < i)
    (hname : (f.cell? i).bind Cell.name? = some name) (hparent : f.parent? i = some container)
    (helement : f.isElement container)
    (hchildren : (f.cell? container).bind Cell.children? = some children) :
  f.IsAt i (depth + 1) (pathStep path name ((f.namedAmong name children).idxOf i + 1)
    (f.namedAmong name children).length)
  where
    depth fuel hfuel := by
      cases fuel with
      | zero => cases hfuel
      | succ fuel =>
          have hcontainer := h.depth fuel (by omega)
          simp [depthWithin, hparent, helement, hcontainer, Except.map]
    path fuel hfuel := by
      cases fuel with
      | zero => cases hfuel
      | succ fuel =>
          have hcontainer := h.path fuel (by omega)
          have hsome : (some container).filter f.isElement = some container := by
            simp [Option.filter, helement]
          simp only [pathWithin, hname, hparent, hsome, hcontainer, elements, hchildren, bind,
            Except.bind, namedAmong]

theorem namedAmong_eq (f : Forest) (name : QName) (children : List Nat) :
  f.namedAmong name children
    = children.filter fun c => ((f.cell? c).bind Cell.name?).any name.same
  := by
  rw [namedAmong, elementsAmong, List.filter_filter]
  congr 1
  funext c
  cases hcell : f.cell? c with
  | none => simp
  | some cell => cases hname : cell.name? <;> simp [Forest.isElement, hcell, Cell.isElement, hname]

namespace Bears

theorem names (h : f.Bears container i ns) :
  (numbersFrom i ns).map (fun j => (f.cell? j).bind Cell.name?) = ns.map Node.name?
  := by
  induction ns generalizing i with
  | nil => rfl
  | cons n ns ih => rw [numbersFrom, List.map_cons, List.map_cons, h.name, ih h.others]

theorem length_named (h : f.Bears container i ns) (name : QName) :
  (f.namedAmong name (numbersFrom i ns)).length = Visit.countName name ns
  := by
  have hnames := congrArg (List.countP fun q => q.any name.same) h.names
  rw [List.countP_map, List.countP_map] at hnames
  rw [namedAmong_eq, ← List.countP_eq_length_filter]
  exact hnames

/-- The place of a node among those of its name is the number of those in front of it. -/
theorem idxOf_named {visited : List Node} {name : QName}
    (h : f.Bears container i (visited ++ n :: ns)) (hname : n.name? = some name) :
  (f.namedAmong name (numbersFrom i (visited ++ n :: ns))).idxOf
      (i + (Node.nodesList visited).length)
    = Visit.countName name visited
  := by
  obtain ⟨hvisited, hn⟩ := h.append
  have hcount := hvisited.length_named name
  have hsame : name.same name := QName.same_iff.mpr rfl
  have hown := hn.name.trans hname
  rw [namedAmong_eq] at hcount ⊢
  have hnew : i + (Node.nodesList visited).length ∉
      (numbersFrom i visited).filter fun c => ((f.cell? c).bind Cell.name?).any name.same := by
    intro hmem
    exact Nat.lt_irrefl _ (Node.lt_of_mem_numbersFrom (List.mem_filter.mp hmem).1)
  rw [Node.numbersFrom_append, numbersFrom, List.filter_append,
    List.filter_cons_of_pos (by simpa [hown] using hsame), List.idxOf_append, if_neg hnew,
    List.idxOf_cons_self, hcount, Nat.zero_add]

end Bears

/-! ### Visits -/

/-- An element of a forest is the one that a visit meets: it has its name, the same nodes are inside
it, and it has the same depth and path. -/
structure Shows (f : Forest) (i : Nat) (v : Visit) : Prop where
  name : ∃ name, (f.cell? i).bind Cell.name? = some name ∧ v.node.name? = some name
  node : f.treeWithin (f.size + 1) i = .ok v.node
  depth : f.depth i = .ok v.depth
  path : f.path i = .ok v.path

mutual

/-- The elements of a tree are those that a visit of it meets. -/
theorem Bears.shows_ofNode {f : Forest} {container i depth : Nat} {path : String} {n : Node}
    {ns : List Node} (h : f.Bears container i (n :: ns))
    (hat : n.isElement → f.IsAt i depth path) :
  List.Forall₂ f.Shows (elementNumbers i n) (Visit.ofNode path depth n)
  := by
  cases n with
  | element name attributes children =>
      have hlt := h.lt_size
      have hcell := h.cell
      have hchildren : f.Bears i (i + 1) ([] ++ children) := h.inside
      refine .cons ⟨⟨name, h.name, rfl⟩, h.tree, ?_, (hat rfl).path _ (by omega)⟩
        (hchildren.shows_ofList (hat rfl) (Nat.lt_succ_self i) h.isElement (by rw [hcell]; rfl))
      rw [Forest.depth, hcell]
      exact (hat rfl).depth _ (by omega)
  | _ => exact .nil

/-- The elements among children that are left, and those inside them, are those that a visit meets
from there on. -/
theorem Bears.shows_ofList {f : Forest} {container i depth : Nat} {path : String}
    {visited ns : List Node} (h : f.Bears container i (visited ++ ns))
    (hat : f.IsAt container depth path) (hlt : container < i) (helement : f.isElement container)
    (hchildren : (f.cell? container).bind Cell.children?
      = some (numbersFrom i (visited ++ ns))) :
  List.Forall₂ f.Shows (elementNumbersFrom (i + (Node.nodesList visited).length) ns)
    (Visit.ofList path (depth + 1) (visited ++ ns) visited ns)
  := by
  cases ns with
  | nil => exact .nil
  | cons n ns =>
      have hn := h.append.2
      have hnext : f.Bears container i ((visited ++ [n]) ++ ns) := by simpa using h
      have hothers := hnext.shows_ofList hat hlt helement (by simpa using hchildren)
      rw [List.append_assoc, List.singleton_append, Node.nodesList_append, List.length_append,
        ← Nat.add_assoc] at hothers
      rw [elementNumbersFrom, Visit.ofList]
      refine List.rel_append ?_ (by simpa [Node.nodesList] using hothers)
      cases n with
      | element name attributes children =>
          have hplace := hat.inside (Nat.lt_add_right _ hlt) hn.name hn.parent helement hchildren
          rw [h.length_named, h.idxOf_named rfl] at hplace
          exact hn.shows_ofNode fun _ => hplace
      | _ => exact .nil

end

/-- The elements at the top level, and those inside them, are those that a visit meets. -/
theorem Bears.shows_ofTop (h : f.Bears container i ns) (htop : f.isElement container = false) :
  List.Forall₂ f.Shows (elementNumbersFrom i ns) (Visit.ofTop ns)
  := by
  induction ns generalizing i with
  | nil => exact .nil
  | cons n ns ih =>
      rw [elementNumbersFrom, Visit.ofTop]
      refine List.rel_append ?_ (ih h.others)
      cases n with
      | element name attributes children =>
          exact h.shows_ofNode fun _ => isAt_top h.name h.parent htop
      | _ => exact .nil

end Forest

/-- A walk through the forest of a document meets the elements of a visit in their order, and each
has the depth and the path there, by the containers that nodes remember, that the visit gives it. -/
theorem Document.IsOrdered.walk_planted {d : Document} (h : d.IsOrdered) :
  ∃ f numbers, d.plant = .ok f ∧ f.Holds d ∧ f.descendants 0 = .ok (numbers, true)
    ∧ List.Forall₂ f.Shows numbers d.visits
  := by
  obtain ⟨f, hplant, hholds⟩ := h.exists_forest
  obtain rfl : f = Forest.ofDocument d :=
    Except.ok.inj (hplant.symm.trans (Forest.plantAll_top d.declaration [] d.children h))
  have hbears : (Forest.ofDocument d).Bears 0 1 d.children :=
    ⟨[⟨.document d.declaration (numbersFrom 1 d.children), none⟩], [], rfl,
      by rw [List.append_nil]; rfl⟩
  refine ⟨_, elementNumbersFrom 1 d.children, hplant, hholds, ?_, hbears.shows_ofTop rfl⟩
  have hfuel : (Node.nodesList d.children).length ≤ (Forest.ofDocument d).size := by
    rw [hholds.size, Document.nodes]
    exact Nat.le_succ _
  exact congrArg Except.ok (hbears.walk hfuel [])

/-- What a record of a creation tells is the local part of an element of a forest, and the number of
elements around it. -/
def Forest.IsTold (f : Forest) (i : Nat) (told : Option Json × Option Json) : Prop :=
  ∃ name depth, (f.cell? i).bind Cell.name? = some name ∧ f.depth i = .ok depth
    ∧ told = (some (.str name.localPart), some (.int depth))

/-- At every moment of a session that begins with an empty document, the records of creations tell
the elements that a walk through the forest of the document meets, in their order. -/
theorem Run.LeadsTo.walk_told {settings : Settings} {r : Run}
    (hr : Run.LeadsTo ⟨{ settings := settings }, []⟩ r) :
  ∃ f numbers, r.builder.draft.document.plant = .ok f ∧ f.descendants 0 = .ok (numbers, true)
    ∧ List.Forall₂ f.IsTold numbers (Log.told r.builder.records)
  := by
  have hordered : r.builder.draft.document.IsOrdered :=
    (hr.areBuilt (Document.isOrdered_nil none)).ordered.declare _
  obtain ⟨f, numbers, hplant, -, hwalk, hshows⟩ := hordered.walk_planted
  have hstart : Site.Holds (fun s opened h => s.IsRightmost opened ∧ s.TellsOutline h)
      ⟨{ settings := settings }, []⟩ :=
    ⟨Site.top settings, [], {}, Site.top_fits settings, rfl, Site.isRightmost_top settings, rfl⟩
  obtain ⟨s, opened, h, fits, rfl, rightmost, tells⟩ := Site.lasts_rightmost.holds hstart hr
  have htold : Log.told h.records = (Visit.ofTop (s.around h.children)).map Visit.told :=
    tells.trans (Visit.map_ofTop (s.around h.children)).1.symm
  refine ⟨f, numbers, hplant, hwalk, ?_⟩
  change List.Forall₂ f.IsTold numbers (Log.told h.records)
  rw [htold, List.forall₂_map_right_iff]
  refine hshows.imp fun i v hv => ?_
  obtain ⟨name, hcell, hname⟩ := hv.name
  exact ⟨name, v.depth, hcell, hv.depth, by rw [Visit.told, hname]; rfl⟩

end XmlDraft
