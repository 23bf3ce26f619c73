import XmlDraft.Proofs.Legible
import XmlDraft.Proofs.Place
import XmlDraft.Proofs.TopLevel
import XmlDraft.Tree.Forest
import Mathlib.Data.List.Count

/-!
# Documents as forests

The nodes of a document are made one by one in document order, and each is attached to its
container when it is made.  So every node gets a number of its own and stands among the children
of one container, the one that it remembers.  Main statement: a document whose top level is in
order becomes a forest in this way, in which that holds of each node and which gives the document
back.
-/

namespace XmlDraft

/-- What a node holds before anything is attached to it. -/
def Node.cell : Node → Cell
  | .element name attributes _ => .element name attributes []
  | .text value => .text value
  | .cdata value => .cdata value
  | .comment value => .comment value
  | .doctype d => .doctype d

theorem Node.shell?_cell (n : Node) :
  n.cell.shell? = some (n.withChildren [])
  := by
  cases n <;> rfl

namespace Forest

/-! ### Planting -/

/-- The forest of a document without nodes, which has the number zero. -/
def ofDeclaration (declaration : Option Declaration) : Forest :=
  ⟨[⟨.document declaration [], none⟩]⟩

/-- Makes a node and attaches it to a container. -/
def make (f : Forest) (container : Nat) (c : Cell) : Except Fault Forest :=
  (f.grow c).append container (some f.size)

mutual

/-- Makes a node and attaches it to a container, and then the nodes inside it. -/
def plant (container : Nat) : Node → Forest → Except Fault Forest
  | .element name attributes children, f => do
    let g ← f.make container (.element name attributes [])
    plantAll f.size children g
  | .text value, f => f.make container (.text value)
  | .cdata value, f => f.make container (.cdata value)
  | .comment value, f => f.make container (.comment value)
  | .doctype d, f => f.make container (.doctype d)

/-- Makes nodes and attaches them to a container, one after another. -/
def plantAll (container : Nat) : List Node → Forest → Except Fault Forest
  | [], f => .ok f
  | n :: ns, f => do
    let g ← plant container n f
    plantAll container ns g

end

theorem plantAll_append (container : Nat) (before after : List Node) (f : Forest) :
  plantAll container (before ++ after) f
    = (plantAll container before f).bind (plantAll container after)
  := by
  induction before generalizing f with
  | nil => rfl
  | cons n ns ih =>
      simp only [List.cons_append, plantAll, bind]
      cases plant container n f with
      | error e => rfl
      | ok g => exact ih g

/-- The children of a node or a document, none if it has none. -/
def childrenOf (f : Forest) (i : Nat) : List Nat :=
  ((f.cell? i).bind Cell.children?).getD []

/-- A forest of one document, the number of which is zero: every other node stands among the
children of the container that it remembers, once, and nowhere else; it was made after that
container. -/
structure IsPlanted (f : Forest) : Prop where
  top : f.parent? 0 = none
  parent : ∀ i, 0 < i → i < f.size → ∃ c < i, f.parent? i = some c
  once : ∀ c i, (f.childrenOf c).count i = if f.parent? i = some c then 1 else 0

/-- The document with the number zero, with everything inside it. -/
def document (f : Forest) : Except Fault Document := do
  let declaration ← f.declaration 0
  let children ← f.top 0
  let trees ← children.mapM (f.treeWithin (f.size + 1))
  .ok ⟨declaration, trees⟩

/-- A forest of a document and of nothing else. -/
structure Holds (f : Forest) (d : Document) : Prop where
  planted : f.IsPlanted
  size : f.size = d.nodes.length + 1
  document : f.document = .ok d

end Forest

/-- The forest of a document, in which each node is made and attached once. -/
def Document.plant (d : Document) : Except Fault Forest :=
  Forest.plantAll 0 d.children (.ofDeclaration d.declaration)

/-! ### Numbers -/

/-- A node or document with more children behind those that it has. -/
def Plant.add (p : Plant) (numbers : List Nat) : Plant :=
  { p with cell := p.cell.withChildren (p.cell.children?.getD [] ++ numbers) }

theorem Plant.add_add (p : Plant) (before after : List Nat) :
  (p.add before).add after = p.add (before ++ after)
  := by
  obtain ⟨cell, parent⟩ := p
  cases cell <;> simp [add, Cell.withChildren, Cell.children?]

namespace Node

/-- The numbers of nodes one after another, from a given one on, the nodes inside them being
numbered as well. -/
def numbersFrom (i : Nat) : List Node → List Nat
  | [] => []
  | n :: ns => i :: numbersFrom (i + n.nodes.length) ns

mutual

/-- What a node and the nodes inside it hold, in document order, the first of them having a given
number. -/
def plantsFrom (container i : Nat) : Node → List Plant
  | .element name attributes children =>
    ⟨.element name attributes (numbersFrom (i + 1) children), some container⟩
      :: plantsFromAll i (i + 1) children
  | .text value => [⟨.text value, some container⟩]
  | .cdata value => [⟨.cdata value, some container⟩]
  | .comment value => [⟨.comment value, some container⟩]
  | .doctype d => [⟨.doctype d, some container⟩]

/-- What nodes and the nodes inside them hold, one after another. -/
def plantsFromAll (container i : Nat) : List Node → List Plant
  | [] => []
  | n :: ns => plantsFrom container i n ++ plantsFromAll container (i + n.nodes.length) ns

end

theorem numbersFrom_append (i : Nat) (before after : List Node) :
  numbersFrom i (before ++ after)
    = numbersFrom i before ++ numbersFrom (i + (nodesList before).length) after
  := by
  induction before generalizing i with
  | nil => simp [numbersFrom, nodesList]
  | cons n ns ih =>
      simp only [List.cons_append, numbersFrom, ih, nodesList, List.length_append, Nat.add_assoc]

theorem plantsFromAll_append (container i : Nat) (before after : List Node) :
  plantsFromAll container i (before ++ after)
    = plantsFromAll container i before
      ++ plantsFromAll container (i + (nodesList before).length) after
  := by
  induction before generalizing i with
  | nil => simp [plantsFromAll, nodesList]
  | cons n ns ih =>
      simp only [List.cons_append, plantsFromAll, ih, nodesList, List.length_append,
        Nat.add_assoc, List.append_assoc]

mutual

theorem length_plantsFrom (container i : Nat) (n : Node) :
  (plantsFrom container i n).length = n.nodes.length
  := by
  cases n with
  | element name attributes children =>
      rw [plantsFrom, nodes, List.length_cons, List.length_cons, length_plantsFromAll]
  | _ => rfl

theorem length_plantsFromAll (container i : Nat) (ns : List Node) :
  (plantsFromAll container i ns).length = (nodesList ns).length
  := by
  cases ns with
  | nil => rfl
  | cons n ns =>
      rw [plantsFromAll, nodesList, List.length_append, List.length_append, length_plantsFrom,
        length_plantsFromAll]

end

end Node

open Node (numbersFrom plantsFrom plantsFromAll)

/-! ### What planting gives -/

/-- A change inside the first part of a list. -/
theorem modify_append_left {α : Type} {i : Nat} {before : List α} (h : i < before.length)
    (f : α → α) (after : List α) :
  (before ++ after).modify i f = before.modify i f ++ after
  := by
  induction before generalizing i with
  | nil => exact absurd h (Nat.not_lt_zero i)
  | cons a as ih =>
      cases i with
      | zero => rfl
      | succ i =>
          rw [List.length_cons, Nat.add_lt_add_iff_right] at h
          simp only [List.cons_append, List.modify_succ_cons, ih h]

/-- A change of the element behind the first part of a list. -/
theorem modify_length_append {α : Type} (f : α → α) (before : List α) (a : α) (after : List α) :
  (before ++ a :: after).modify before.length f = before ++ f a :: after
  := by
  induction before with
  | nil => rfl
  | cons b bs ih => exact congrArg (b :: ·) ih

namespace Forest

variable {f g : Forest} {container : Nat}

/-- The forest with one more node, which is attached to a container. -/
def withNode (f : Forest) (container : Nat) (c : Cell) : Forest :=
  ⟨f.plants.modify container (·.add [f.size]) ++ [⟨c, some container⟩]⟩

theorem size_withNode (f : Forest) (container : Nat) (c : Cell) :
  (f.withNode container c).size = f.size + 1
  := by
  simp [withNode, size]

/-- A node is attached to a container that has children and where it is not misplaced. -/
theorem make_eq {cell : Cell} {children : List Nat} (hcell : f.cell? container = some cell)
    (hchildren : cell.children? = some children) {c : Cell} (hkind : c.kind?.isSome)
    (hplaced : (f.grow c).misplacement? cell c = none) :
  f.make container c = .ok (f.withNode container c)
  := by
  have hlt : container < f.plants.length := by
    by_contra hnot
    rw [cell?, List.getElem?_eq_none (Nat.le_of_not_lt hnot)] at hcell
    cases hcell
  have hold : (f.grow c).cell? container = some cell := by
    rw [← hcell, cell?, cell?, grow, List.getElem?_append_left hlt]
  have hnew : (some f.size).bind (f.grow c).cell? = some c := by
    simp [cell?, grow, size]
  have hkind' : c.kind?.isNone = false := by simpa using hkind
  simp only [make, append, hold, hchildren, hnew, hkind', hplaced, Bool.false_eq_true, ite_false]
  have hadopt : ((f.grow c).adopt container f.size).plants = f.plants ++ [⟨c, some container⟩] :=
    modify_length_append _ f.plants ⟨c, none⟩ []
  have hput : f.plants.modify container (fun p => { p with
      cell := cell.withChildren (children ++ [f.size]) })
        = f.plants.modify container (·.add [f.size]) := by
    apply List.ext_getElem?
    intro i
    rw [List.getElem?_modify, List.getElem?_modify]
    cases hi : f.plants[i]? with
    | none => rfl
    | some p =>
        by_cases heq : container = i
        · subst heq
          have hp : p.cell = cell := by simpa [cell?, hi] using hcell
          simp [Plant.add, hp, hchildren]
        · simp [heq]
  rw [put, hadopt, modify_append_left hlt, hput]
  rfl

theorem make_inside (h : f.isElement container) {c : Cell} (hkind : c.kind?.isSome) :
  f.make container c = .ok (f.withNode container c)
  := by
  rw [isElement, Option.any_eq_true] at h
  obtain ⟨cell, hcell, helement⟩ := h
  cases cell with
  | element name attributes children => exact make_eq hcell rfl hkind rfl
  | _ => cases helement

theorem kind?_cell (n : Node) :
  n.cell.kind?.isSome
  := by
  cases n <;> rfl

theorem isElement_lt (h : f.isElement container) :
  container < f.size
  := by
  by_contra hnot
  rw [isElement, cell?, List.getElem?_eq_none (Nat.le_of_not_lt hnot)] at h
  cases h

/-- What was made later does not change what a container is. -/
theorem isElement_add (h : f.isElement container) (numbers : List Nat) (after : List Plant) :
  (⟨f.plants.modify container (·.add numbers) ++ after⟩ : Forest).isElement container
  := by
  have hlt : container < (f.plants.modify container (·.add numbers)).length := by
    rw [List.length_modify]
    exact isElement_lt h
  rw [isElement, cell?, Option.any_eq_true] at h ⊢
  obtain ⟨cell, hcell, helement⟩ := h
  obtain ⟨p, hp, rfl⟩ := Option.map_eq_some_iff.mp hcell
  refine ⟨(p.add numbers).cell, ?_, ?_⟩
  · rw [List.getElem?_append_left hlt, List.getElem?_modify_eq, hp]
    rfl
  · obtain ⟨cell, parent⟩ := p
    cases cell with
    | element name attributes children => rfl
    | _ => cases helement

theorem modify_add (f : Forest) (container : Nat) (before after : List Nat) :
  (f.plants.modify container (·.add before)).modify container (·.add after)
    = f.plants.modify container (·.add (before ++ after))
  := by
  rw [List.modify_modify_eq]
  congr 1
  funext p
  exact p.add_add before after

mutual

/-- What a node gives that can be made: it stands behind all others, with what is inside it. -/
theorem plant_eq {f : Forest} {container : Nat} {n : Node}
    (hmake : f.make container n.cell = .ok (f.withNode container n.cell)) :
  plant container n f
    = .ok ⟨f.plants.modify container (·.add [f.size]) ++ plantsFrom container f.size n⟩
  := by
  cases n with
  | element name attributes children =>
      let g := f.withNode container (.element name attributes [])
      have hsize : (f.plants.modify container (·.add [f.size])).length = f.size :=
        List.length_modify _ _ _
      have hnew : g.isElement f.size := by
        rw [isElement, cell?, ← hsize]
        simp [g, withNode, Cell.isElement, Cell.name?]
      have hchildren := plantAll_inside hnew children
      have hg : g.size = f.size + 1 := size_withNode f container _
      have hmodify : g.plants.modify f.size (·.add (numbersFrom (f.size + 1) children))
          = f.plants.modify container (·.add [f.size])
            ++ [⟨.element name attributes (numbersFrom (f.size + 1) children), some container⟩] := by
        have hlast := modify_length_append (·.add (numbersFrom (f.size + 1) children))
          (f.plants.modify container (·.add [f.size])) ⟨.element name attributes [], some container⟩ []
        rwa [hsize] at hlast
      rw [hg, hmodify, List.append_assoc] at hchildren
      have hmake' : f.make container (.element name attributes []) = .ok g := hmake
      simp only [plant, bind, Except.bind, hmake', hchildren, plantsFrom, List.singleton_append]
  | text value => exact hmake
  | cdata value => exact hmake
  | comment value => exact hmake
  | doctype d => exact hmake

/-- What nodes inside an element give: they stand behind all others, one after another. -/
theorem plantAll_inside {f : Forest} {container : Nat} (h : f.isElement container)
    (ns : List Node) :
  plantAll container ns f
    = .ok ⟨f.plants.modify container (·.add (numbersFrom f.size ns))
        ++ plantsFromAll container f.size ns⟩
  := by
  cases ns with
  | nil =>
      have hsame : f.plants.modify container (·.add []) = f.plants := by
        have hid : (fun p : Plant => p.add []) = id := by
          funext p
          obtain ⟨cell, parent⟩ := p
          cases cell <;> simp [Plant.add, Cell.withChildren, Cell.children?]
        rw [hid, List.modify_id]
      rw [plantAll, numbersFrom, plantsFromAll, hsame, List.append_nil]
  | cons n ns =>
      have hlt := isElement_lt h
      have hfirst := plant_eq (make_inside h (kind?_cell n))
      let g : Forest := ⟨f.plants.modify container (·.add [f.size]) ++ plantsFrom container f.size n⟩
      have hg : g.size = f.size + n.nodes.length := by
        simp [g, size, Node.length_plantsFrom]
      have hothers := plantAll_inside (f := g) (isElement_add h [f.size] _) ns
      have hmodify (numbers : List Nat) : g.plants.modify container (·.add numbers)
          = f.plants.modify container (·.add (f.size :: numbers))
            ++ plantsFrom container f.size n := by
        rw [modify_append_left (by simpa [size] using hlt), modify_add, List.singleton_append]
      rw [hg, hmodify, List.append_assoc] at hothers
      simp only [plantAll, bind, Except.bind, hfirst, numbersFrom, plantsFromAll]
      exact hothers

end

/-! ### Reading back -/

theorem cell?_plants {before after : List Plant} {p : Plant} (h : f.plants = before ++ p :: after) :
  f.cell? before.length = some p.cell
  := by
  simp [cell?, h]

mutual

/-- A node is read back from what it holds, wherever that stands in the forest. -/
theorem treeWithin_plants {f : Forest} (before after : List Plant) (container : Nat) (n : Node)
    (h : f.plants = before ++ plantsFrom container before.length n ++ after) {fuel : Nat}
    (hfuel : n.nodes.length ≤ fuel) :
  f.treeWithin fuel before.length = .ok n
  := by
  cases fuel with
  | zero => cases n <;> simp [Node.nodes] at hfuel
  | succ fuel =>
      cases n with
      | element name attributes children =>
          rw [Node.nodes, List.length_cons, Nat.add_le_add_iff_right] at hfuel
          rw [plantsFrom, List.append_assoc, List.cons_append] at h
          have hinside := mapM_treeWithin (before
              ++ [⟨.element name attributes (numbersFrom (before.length + 1) children),
                some container⟩]) after before.length children
            (by simpa using h) hfuel
          rw [List.length_append, List.length_singleton] at hinside
          rw [treeWithin, cell?_plants h]
          dsimp only
          rw [hinside]
          rfl
      | _ => rw [treeWithin, cell?_plants (by simpa [plantsFrom] using h)]

/-- Nodes are read back from what they hold, wherever that stands in the forest. -/
theorem mapM_treeWithin {f : Forest} (before after : List Plant) (container : Nat) (ns : List Node)
    (h : f.plants = before ++ plantsFromAll container before.length ns ++ after) {fuel : Nat}
    (hfuel : (Node.nodesList ns).length ≤ fuel) :
  (numbersFrom before.length ns).mapM (f.treeWithin fuel) = .ok ns
  := by
  cases ns with
  | nil => rfl
  | cons n ns =>
      rw [Node.nodesList, List.length_append] at hfuel
      rw [plantsFromAll] at h
      have hfirst := treeWithin_plants before
        (plantsFromAll container (before.length + n.nodes.length) ns ++ after) container n
        (by simpa using h) (Nat.le_of_add_right_le hfuel)
      have hothers := mapM_treeWithin (before ++ plantsFrom container before.length n) after
        container ns
        (by simpa [Node.length_plantsFrom] using h) (Nat.le_of_add_left_le hfuel)
      rw [List.length_append, Node.length_plantsFrom] at hothers
      simp [numbersFrom, List.mapM_cons, hfirst, hothers, bind, Except.bind, pure, Except.pure]

end

/-- What nodes hold is found at their numbers. -/
theorem filterMap_cell? (before after : List Plant) (container : Nat) (ns : List Node)
    (h : f.plants = before ++ plantsFromAll container before.length ns ++ after) :
  (numbersFrom before.length ns).filterMap (fun i => (f.cell? i).bind Cell.shell?)
    = ns.map fun n => n.withChildren []
  := by
  induction ns generalizing before with
  | nil => rfl
  | cons n ns ih =>
      rw [plantsFromAll] at h
      have hothers := ih (before ++ plantsFrom container before.length n)
        (by simpa [Node.length_plantsFrom] using h)
      rw [List.length_append, Node.length_plantsFrom] at hothers
      obtain ⟨p, ps, hp, hshell⟩ : ∃ p ps, plantsFrom container before.length n = p :: ps
          ∧ p.cell.shell? = some (n.withChildren []) := by
        cases n <;> exact ⟨_, _, rfl, rfl⟩
      rw [hp] at h
      have hcell : (f.cell? before.length).bind Cell.shell? = some (n.withChildren []) := by
        rw [cell?_plants (by simpa using h)]
        exact hshell
      simp only [numbersFrom, List.filterMap_cons, hcell, hothers, List.map_cons]

/-! ### The top level -/

/-- The forest of a document in closed form. -/
def ofDocument (d : Document) : Forest :=
  ⟨⟨.document d.declaration (numbersFrom 1 d.children), none⟩ :: plantsFromAll 0 1 d.children⟩

theorem size_ofDocument (d : Document) :
  (ofDocument d).size = d.nodes.length + 1
  := by
  rw [ofDocument, size, List.length_cons, Node.length_plantsFromAll, Document.nodes]

/-- The rules for the top level look only at the kinds of nodes. -/
theorem misplacement?_shells (ns : List Node) (n : Node)
    (h : Document.misplacement? ⟨none, ns⟩ n = none) :
  Document.misplacement? ⟨none, ns.map fun n => n.withChildren []⟩ (n.withChildren []) = none
  := by
  have hroot : Document.root? ⟨none, ns.map fun n => n.withChildren []⟩
      = (Document.root? ⟨none, ns⟩).map fun n => n.withChildren [] := by
    simp only [Document.root?, List.find?_map, Function.comp_def, Node.isElement_withChildren]
  have hdoctype : Document.doctype? ⟨none, ns.map fun n => n.withChildren []⟩
      = Document.doctype? ⟨none, ns⟩ := by
    simp only [Document.doctype?, List.findSome?_map]
    congr 1
    funext m
    cases m <;> rfl
  cases n with
  | element name attributes children =>
      rw [Document.misplacement?, Option.map_eq_none_iff] at h
      rw [Node.withChildren, Document.misplacement?, hroot, h]
      rfl
  | doctype d =>
      rw [Document.misplacement?] at h
      change Document.misplacement? _ (.doctype d) = none
      rw [Document.misplacement?, hroot, hdoctype]
      simpa using h
  | _ => exact h

/-- The nodes of a document can be made one after another, if its top level is in order. -/
theorem plantAll_top (declaration : Option Declaration) (before after : List Node)
    (h : Document.IsOrdered ⟨declaration, before ++ after⟩) :
  plantAll 0 after (ofDocument ⟨declaration, before⟩)
    = .ok (ofDocument ⟨declaration, before ++ after⟩)
  := by
  induction after generalizing before with
  | nil =>
      rw [List.append_nil]
      rfl
  | cons n ns ih =>
      let f := ofDocument ⟨declaration, before⟩
      have hsize : f.size = (Node.nodesList before).length + 1 := size_ofDocument _
      have hplaced : ((f.grow n.cell).misplacement? (.document declaration (numbersFrom 1 before))
          n.cell) = none := by
        have hsurface := filterMap_cell? (f := f.grow n.cell) [⟨.document declaration
          (numbersFrom 1 before), none⟩] [⟨n.cell, none⟩] 0 before rfl
        rw [List.length_singleton] at hsurface
        rw [misplacement?, Node.shell?_cell, Option.bind_some, surface, hsurface]
        exact misplacement?_shells before n (h.declare none).misplacement?_eq_none
      have hmake : f.make 0 n.cell = .ok (f.withNode 0 n.cell) :=
        make_eq rfl rfl (kind?_cell n) hplaced
      have hfirst := plant_eq (f := f) hmake
      have heq : (⟨f.plants.modify 0 (·.add [f.size]) ++ plantsFrom 0 f.size n⟩ : Forest)
          = ofDocument ⟨declaration, before ++ [n]⟩ := by
        rw [hsize, Nat.add_comm]
        simp [f, ofDocument, Plant.add, Cell.withChildren, Cell.children?, Node.numbersFrom_append,
          Node.plantsFromAll_append, numbersFrom, plantsFromAll]
      have hothers := ih (before ++ [n]) (by simpa using h)
      rw [List.append_assoc, List.singleton_append] at hothers
      rw [heq] at hfirst
      simp only [plantAll, bind, Except.bind]
      rw [hfirst]
      exact hothers

/-! ### Places -/

theorem parent?_size (f : Forest) :
  f.parent? f.size = none
  := by
  simp [parent?, size]

theorem parent?_withNode (f : Forest) (container : Nat) (c : Cell) (i : Nat) :
  (f.withNode container c).parent? i = if i = f.size then some container else f.parent? i
  := by
  have hlength : (f.plants.modify container (·.add [f.size])).length = f.size :=
    List.length_modify _ _ _
  unfold parent? withNode
  rcases Nat.lt_trichotomy i f.size with hi | rfl | hi
  · rw [if_neg (Nat.ne_of_lt hi),
      List.getElem?_append_left (hlength.symm ▸ hi : i < (List.modify _ _ _).length),
      List.getElem?_modify]
    cases f.plants[i]? with
    | none => rfl
    | some p =>
        by_cases heq : container = i
        · simp [heq, Plant.add]
        · simp [heq]
  · rw [if_pos rfl, List.getElem?_append_right (Nat.le_of_eq hlength), hlength, Nat.sub_self]
    rfl
  · have hold : f.plants[i]? = none := List.getElem?_eq_none (Nat.le_of_lt hi)
    rw [if_neg (Nat.ne_of_gt hi), hold, List.getElem?_eq_none]
    simpa [hlength] using Nat.succ_le_of_lt hi

theorem childrenOf_withNode {cell : Cell} (hcell : f.cell? container = some cell)
    (hchildren : cell.children?.isSome) {c : Cell} (hempty : c.children?.getD [] = []) (i : Nat) :
  (f.withNode container c).childrenOf i
    = if i = container then f.childrenOf i ++ [f.size] else f.childrenOf i
  := by
  have hlength : (f.plants.modify container (·.add [f.size])).length = f.size :=
    List.length_modify _ _ _
  obtain ⟨p, hp, rfl⟩ := Option.map_eq_some_iff.mp hcell
  have hlt : container < f.size := (List.getElem?_eq_some_iff.mp hp).1
  unfold childrenOf cell? withNode
  rcases Nat.lt_trichotomy i f.size with hi | rfl | hi
  · rw [List.getElem?_append_left (hlength.symm ▸ hi : i < (List.modify _ _ _).length),
      List.getElem?_modify]
    by_cases heq : container = i
    · subst heq
      obtain ⟨cell, parent⟩ := p
      rw [hp]
      cases cell with
      | element name attributes children => simp [Plant.add, Cell.withChildren, Cell.children?]
      | document declaration children => simp [Plant.add, Cell.withChildren, Cell.children?]
      | _ => cases hchildren
    · simp [heq, Ne.symm heq]
  · have hold : f.plants[f.size]? = none := List.getElem?_eq_none (Nat.le_refl _)
    rw [if_neg (Nat.ne_of_gt hlt), hold, List.getElem?_append_right (Nat.le_of_eq hlength), hlength,
      Nat.sub_self]
    exact hempty
  · have hold : f.plants[i]? = none := List.getElem?_eq_none (Nat.le_of_lt hi)
    rw [if_neg (Nat.ne_of_gt (Nat.lt_trans hlt hi)), hold, List.getElem?_eq_none]
    simpa [hlength] using Nat.succ_le_of_lt hi

/-- A node that was made stands in one place, and nothing else has moved. -/
theorem IsPlanted.withNode (h : f.IsPlanted) {cell : Cell} (hcell : f.cell? container = some cell)
    (hchildren : cell.children?.isSome) {c : Cell} (hempty : c.children?.getD [] = []) :
  (f.withNode container c).IsPlanted
  where
    top := by
      obtain ⟨p, hp, _⟩ := Option.map_eq_some_iff.mp hcell
      have hlt : container < f.size := (List.getElem?_eq_some_iff.mp hp).1
      rw [parent?_withNode, if_neg (Nat.ne_of_lt (Nat.zero_lt_of_lt hlt)), h.top]
    parent i hpos hi := by
      rw [size_withNode] at hi
      rw [parent?_withNode]
      split_ifs with heq
      · obtain ⟨p, hp, _⟩ := Option.map_eq_some_iff.mp hcell
        exact ⟨container, heq ▸ (List.getElem?_eq_some_iff.mp hp).1, rfl⟩
      · exact h.parent i hpos (Nat.lt_of_le_of_ne (Nat.le_of_lt_succ hi) heq)
    once k i := by
      have hnew : (f.childrenOf k).count f.size = 0 := by
        rw [h.once, parent?_size]
        rfl
      rw [childrenOf_withNode hcell hchildren hempty, parent?_withNode]
      split_ifs with hk hi hparent hparent hi hparent hparent
      · rw [hi, List.count_append, hnew, List.count_singleton_self]
      · exact absurd (congrArg some hk.symm) hparent
      · rw [List.count_append, h.once, if_pos hparent]
        simp [Ne.symm hi]
      · rw [List.count_append, h.once, if_neg hparent]
        simp [Ne.symm hi]
      · exact absurd (Option.some.inj hparent).symm hk
      · rw [hi, hnew]
      · rw [h.once, if_pos hparent]
      · rw [h.once, if_neg hparent]

/-- A node that is made is attached to a container that has children. -/
theorem make_ok {c : Cell} (hlt : container < f.size) (h : f.make container c = .ok g) :
  ∃ cell, f.cell? container = some cell ∧ cell.children?.isSome ∧ g = f.withNode container c
  := by
  have hold : (f.grow c).cell? container = f.cell? container := by
    rw [cell?, cell?, grow, List.getElem?_append_left hlt]
  have hnew : (some f.size).bind (f.grow c).cell? = some c := by
    simp [cell?, grow, size]
  have hmake := h
  simp only [make, append, hold, hnew] at h
  cases hcell : f.cell? container with
  | none => simp [hcell] at h
  | some cell =>
      cases hchildren : cell.children? with
      | none => simp [hcell, hchildren] at h
      | some children =>
          simp only [hcell, hchildren] at h
          split_ifs at h with hkind
          split at h
          · cases h
          · rename_i hplaced
            have hkind' : c.kind?.isSome := by
              rwa [Bool.not_eq_true, Option.isNone_eq_false_iff] at hkind
            rw [make_eq hcell hchildren hkind' hplaced] at hmake
            exact ⟨cell, rfl, by rw [hchildren]; rfl, (Except.ok.inj hmake).symm⟩

theorem IsPlanted.make (h : f.IsPlanted) {c : Cell} (hempty : c.children?.getD [] = [])
    (hlt : container < f.size) (hmake : f.make container c = .ok g) :
  g.IsPlanted ∧ g.size = f.size + 1
  := by
  obtain ⟨cell, hcell, hchildren, rfl⟩ := make_ok hlt hmake
  exact ⟨h.withNode hcell hchildren hempty, size_withNode f container c⟩

mutual

/-- Every node that is planted stands in one place. -/
theorem IsPlanted.plant {f g : Forest} {container : Nat} (h : f.IsPlanted)
    (hlt : container < f.size) {n : Node} (hplant : Forest.plant container n f = .ok g) :
  g.IsPlanted ∧ f.size ≤ g.size
  := by
  cases n with
  | element name attributes children =>
      simp only [Forest.plant, bind, Except.bind] at hplant
      split at hplant
      · cases hplant
      rename_i next hnext
      obtain ⟨hplanted, hsize⟩ := h.make rfl hlt hnext
      obtain ⟨hg, hle⟩ := hplanted.plantAll (hsize ▸ Nat.lt_succ_self f.size) hplant
      exact ⟨hg, by omega⟩
  | _ =>
      obtain ⟨hplanted, hsize⟩ := h.make rfl hlt hplant
      exact ⟨hplanted, by omega⟩

theorem IsPlanted.plantAll {f g : Forest} {container : Nat} (h : f.IsPlanted)
    (hlt : container < f.size) {ns : List Node}
    (hplant : Forest.plantAll container ns f = .ok g) :
  g.IsPlanted ∧ f.size ≤ g.size
  := by
  cases ns with
  | nil =>
      cases hplant
      exact ⟨h, Nat.le_refl _⟩
  | cons n ns =>
      simp only [Forest.plantAll, bind, Except.bind] at hplant
      split at hplant
      · cases hplant
      rename_i next hnext
      obtain ⟨hplanted, hle⟩ := h.plant hlt hnext
      obtain ⟨hg, hle'⟩ := hplanted.plantAll (Nat.lt_of_lt_of_le hlt hle) hplant
      exact ⟨hg, Nat.le_trans hle hle'⟩

end

theorem isPlanted_ofDeclaration (declaration : Option Declaration) :
  (ofDeclaration declaration).IsPlanted
  where
    top := rfl
    parent i hpos hi := by
      rw [size, ofDeclaration, List.length_singleton] at hi
      omega
    once c i := by
      have hparent : (ofDeclaration declaration).parent? i = none := by
        cases i <;> rfl
      have hchildren : (ofDeclaration declaration).childrenOf c = [] := by
        cases c <;> rfl
      rw [hparent, hchildren]
      rfl

end Forest

/-- A document whose top level is in order becomes a forest in which every node stands in one
place, and which gives the document back. -/
theorem Document.IsOrdered.exists_forest {d : Document} (h : d.IsOrdered) :
  ∃ f, d.plant = .ok f ∧ f.Holds d
  := by
  have hplant : d.plant = .ok (Forest.ofDocument d) :=
    Forest.plantAll_top d.declaration [] d.children h
  have hsize := Forest.size_ofDocument d
  refine ⟨Forest.ofDocument d, hplant, ?_, hsize, ?_⟩
  · exact ((Forest.isPlanted_ofDeclaration d.declaration).plantAll Nat.one_pos hplant).1
  · have htrees := Forest.mapM_treeWithin (f := Forest.ofDocument d)
      [⟨.document d.declaration (numbersFrom 1 d.children), none⟩] [] 0 d.children
      (by simp [Forest.ofDocument])
      (show (Node.nodesList d.children).length ≤ (Forest.ofDocument d).size + 1 by
        rw [hsize, Document.nodes]
        omega)
    rw [List.length_singleton] at htrees
    have hdeclaration : (Forest.ofDocument d).declaration 0 = .ok d.declaration := rfl
    have htop : (Forest.ofDocument d).top 0 = .ok (numbersFrom 1 d.children) := rfl
    simp only [Forest.document, hdeclaration, htop, htrees, bind, Except.bind]

end XmlDraft
