import XmlDraft.Proofs.Accepting

/-!
# Namespaces that are inherited

An element that has no namespace is written without a declaration of one, so that it is read in
the namespace of the nearest element around it that has one.  Nodes as reading leaves them have a
normal form in which nothing else is changed.  Main statement: nothing at all is changed just if no
element in a namespace holds an element without one.
-/

namespace XmlDraft

open Reading (Declarations)

namespace Node

mutual

/-- The node with the namespaces in which its elements are read again, given the default namespace
in scope. -/
def inherit (scope : Option String) : Node → Node
  | .element name attributes children =>
    let inner := Writing.innerScope scope name
    .element { name with space := inner } attributes (inheritList inner children)
  | .text value => .text value
  | .cdata value => .cdata value
  | .comment value => .comment value
  | .doctype d => .doctype d

/-- The nodes with the namespaces in which their elements are read again. -/
def inheritList (scope : Option String) : List Node → List Node
  | [] => []
  | n :: ns => inherit scope n :: inheritList scope ns

end

/-- A node that is no element without a namespace. -/
def HasSpace : Node → Prop
  | .element name _ _ => name.space ≠ none
  | _ => True

/-- A node other than an element in a namespace that holds an element without one. -/
def KeepsSpaces : Node → Prop
  | .element name _ children => name.space = none ∨ ∀ m ∈ nodesList children, m.HasSpace
  | _ => True

theorem hasSpace_element {name : QName} {attributes : Attributes} {children : List Node} :
  (element name attributes children).HasSpace ↔ name.space ≠ none
  := Iff.rfl

theorem keepsSpaces_element {name : QName} {attributes : Attributes} {children : List Node} :
  (element name attributes children).KeepsSpaces
    ↔ name.space = none ∨ ∀ m ∈ nodesList children, m.HasSpace
  := Iff.rfl

/-! ### Normal forms -/

theorem isText_inherit (scope : Option String) (n : Node) :
  (n.inherit scope).isText = n.isText
  := by
  cases n with
  | element name attributes children =>
      rw [inherit]
      rfl
  | _ => rfl

/-- Texts stand apart in the nodes that inherit namespaces if they did before. -/
theorem isChain_inheritList (scope : Option String) {ns : List Node} (h : ns.IsChain StandApart) :
  (inheritList scope ns).IsChain StandApart
  := by
  have hmap : inheritList scope ns = ns.map (inherit scope) := by
    induction ns with
    | nil => rfl
    | cons n ns ih => rw [inheritList, ih h.tail, List.map_cons]
  rw [hmap, List.isChain_map]
  refine h.imp fun m n hmn => ?_
  rwa [StandApart, isText_inherit, isText_inherit]

/-- Nodes of which the texts stand apart have no texts to be joined. -/
theorem joinTexts_eq_self {ns : List Node} (h : ns.IsChain StandApart) :
  joinTexts ns = ns
  := by
  induction ns using joinTexts.induct with
  | case1 s t ns ih =>
      rw [List.isChain_cons_cons] at h
      exact absurd h.1 (by simp [StandApart, isText])
  | case2 n ns hjoin ih =>
      rw [joinTexts, ih h.tail]
      exact hjoin
  | case3 => rw [joinTexts]

/-- Where no entities were declared, reading leaves no carriage return that is written as it is. -/
theorem IsAsRead.keepsLines {d : Declarations} {n : Node} (h : n.IsAsRead d)
    (hd : d.entities = []) :
  n.keepsLines
  := by
  cases n with
  | cdata value =>
      have hreturn : '\r' ∉ value.toList := fun hmem => h.2 hmem hd
      simpa [Node.keepsLines] using hreturn
  | comment value =>
      have hreturn : '\r' ∉ value.printed.toList := h
      simpa [Node.keepsLines] using hreturn
  | _ => rfl

mutual

/-- In the normal form of a node as reading leaves it, elements have inherited their namespaces, and
nothing else is changed, if no entities were declared. -/
theorem normal_unified_eq {d : Declarations} (hd : d.entities = []) (scope : Option String)
    {n : Node} (h : ∀ m ∈ n.nodes, m.IsAsRead d) :
  normal scope (unified n) = [n.inherit scope]
  := by
  have hread := h n (mem_nodes n)
  cases n with
  | element name attributes children =>
      rw [forall_nodes_element] at h
      rw [unified, normal, inherit, normalList_unified_eq hd (Writing.innerScope scope name) h.2,
        joinTexts_eq_self (isChain_inheritList _ hread.2)]
  | text value => rfl
  | cdata value =>
      have hreturn : '\r' ∉ value.toList := fun hmem => hread.2 hmem hd
      rw [unified, unifiedText_eq hreturn, normal, Writing.cutSections_of_holdsNoEnd hread.1]
      simp [inherit]
  | comment value =>
      rw [unified, unifiedWording_eq hread, normal, inherit]
  | doctype t => rfl

theorem normalList_unified_eq {d : Declarations} (hd : d.entities = []) (scope : Option String)
    {ns : List Node} (h : ∀ m ∈ nodesList ns, m.IsAsRead d) :
  normalList scope (unifiedList ns) = inheritList scope ns
  := by
  cases ns with
  | nil => rfl
  | cons n ns =>
      rw [forall_nodesList_cons] at h
      rw [unifiedList, normalList, normal_unified_eq hd scope h.1, normalList_unified_eq hd scope h.2,
        inheritList, List.singleton_append]

end

/-! ### Namespaces that are kept -/

/-- Inside an element that is in no empty namespace its own namespace is in scope, or the one
around it. -/
theorem innerScope_eq {name : QName} (h : name.space ≠ some "") (scope : Option String) :
  Writing.innerScope scope name = name.space.or scope
  := by
  unfold Writing.innerScope nonempty?
  cases hs : name.space with
  | none => rfl
  | some uri =>
      have huri : uri ≠ "" := fun heq => h (heq ▸ hs)
      simp [huri]

mutual

/-- A node keeps its namespaces just if no element without one is in the scope of one, be it that of
an element around it within the node or the one around the node. -/
theorem inherit_eq_iff {d : Declarations} (scope : Option String) {n : Node}
    (h : ∀ m ∈ n.nodes, m.IsAsRead d) :
  n.inherit scope = n
    ↔ (scope ≠ none → ∀ m ∈ n.nodes, m.HasSpace) ∧ ∀ m ∈ n.nodes, m.KeepsSpaces
  := by
  cases n with
  | element name attributes children =>
      rw [forall_nodes_element] at h
      have hinner := innerScope_eq h.1.1 scope
      have hchildren := inheritList_eq_iff (Writing.innerScope scope name) h.2
      have hname : ({ name with space := Writing.innerScope scope name } : QName) = name
          ↔ name.space.or scope = name.space := by
        rw [hinner]
        constructor
        · intro heq
          exact congrArg QName.space heq
        · intro heq
          rw [heq]
      rw [inherit, element.injEq, hname, hchildren, hinner, forall_nodes_element,
        forall_nodes_element, hasSpace_element, keepsSpaces_element]
      cases name.space with
      | none => cases scope <;> simp
      | some uri =>
          simp only [Option.some_or, ne_eq, reduceCtorEq, not_false_eq_true, forall_const,
            true_and, false_or]
          exact ⟨fun ⟨hspaces, hkeeps⟩ => ⟨fun _ => hspaces, hspaces, hkeeps⟩, And.right⟩
  | _ => simp [inherit, nodes, HasSpace, KeepsSpaces]

theorem inheritList_eq_iff {d : Declarations} (scope : Option String) {ns : List Node}
    (h : ∀ m ∈ nodesList ns, m.IsAsRead d) :
  inheritList scope ns = ns
    ↔ (scope ≠ none → ∀ m ∈ nodesList ns, m.HasSpace) ∧ ∀ m ∈ nodesList ns, m.KeepsSpaces
  := by
  cases ns with
  | nil => simp [inheritList, nodesList]
  | cons n ns =>
      rw [forall_nodesList_cons] at h
      rw [inheritList, List.cons.injEq, inherit_eq_iff scope h.1, inheritList_eq_iff scope h.2,
        forall_nodesList_cons, forall_nodesList_cons]
      constructor
      · rintro ⟨⟨hfirst, hkeeps⟩, hothers, hkeeps'⟩
        exact ⟨fun hscope => ⟨hfirst hscope, hothers hscope⟩, hkeeps, hkeeps'⟩
      · rintro ⟨hspaces, hkeeps, hkeeps'⟩
        exact ⟨⟨fun hscope => (hspaces hscope).1, hkeeps⟩,
          fun hscope => (hspaces hscope).2, hkeeps'⟩

end

end Node

end XmlDraft
