import XmlDraft.Proofs.Indenting
import XmlDraft.Proofs.Inheriting

/-!
# Namespaces that are declared

The writer passes the default namespace in scope down the tree and declares the namespace of an
element where it differs from that.  What is in scope is the namespace of the nearest element around
that has one, so that declarations can be told from the elements around alone.  Main statement: the
markup of a document consists of pieces in which a start tag holds a declaration just if the element
has a namespace and the nearest element around it that has one is not in the same; and it is the
same if elements without a namespace are put into that of the nearest element around them that has
one.
-/

namespace XmlDraft

/-! ### Elements around -/

/-- The namespace of the nearest element that has one, given the names of elements, the innermost
first. -/
def nearestSpace (around : List QName) : Option String :=
  around.findSome? fun name => nonempty? name.space

/-- Inside an element the nearest namespace is the one that writing has in scope. -/
theorem nearestSpace_cons (name : QName) (around : List QName) :
  nearestSpace (name :: around) = Writing.innerScope (nearestSpace around) name
  := by
  rw [nearestSpace, List.findSome?_cons, Writing.innerScope]
  cases nonempty? name.space with
  | none => rfl
  | some uri => rfl

namespace Node

mutual

/-- The node in which every element without a namespace is in that of the nearest element around it
that has one, given the names of the elements around, the innermost first. -/
def withSpaces (around : List QName) : Node → Node
  | .element name attributes children =>
    .element { name with space := (nonempty? name.space).or (nearestSpace around) } attributes
      (withSpacesList (name :: around) children)
  | .text value => .text value
  | .cdata value => .cdata value
  | .comment value => .comment value
  | .doctype d => .doctype d

/-- The nodes in which every element without a namespace is in that of the nearest element around it
that has one. -/
def withSpacesList (around : List QName) : List Node → List Node
  | [] => []
  | n :: ns => withSpaces around n :: withSpacesList around ns

end

mutual

/-- What elements have in place of a missing namespace is what they inherit. -/
theorem withSpaces_eq (around : List QName) (n : Node) :
  n.withSpaces around = n.inherit (nearestSpace around)
  := by
  cases n with
  | element name attributes children =>
      rw [withSpaces, inherit, withSpacesList_eq (name :: around) children, nearestSpace_cons,
        Writing.innerScope]
  | _ => simp [withSpaces, inherit]

theorem withSpacesList_eq (around : List QName) (ns : List Node) :
  withSpacesList around ns = inheritList (nearestSpace around) ns
  := by
  cases ns with
  | nil => rfl
  | cons n ns =>
      rw [withSpacesList, inheritList, withSpaces_eq around n, withSpacesList_eq around ns]

end

mutual

/-- What has inherited its namespaces does not change when it inherits them again. -/
theorem inherit_inherit (scope : Option String) (n : Node) :
  (n.inherit scope).inherit scope = n.inherit scope
  := by
  cases n with
  | element name attributes children =>
      simp only [inherit, Writing.innerScope_normal,
        inheritList_inheritList (Writing.innerScope scope name) children]
  | _ => simp [inherit]

theorem inheritList_inheritList (scope : Option String) (ns : List Node) :
  inheritList scope (inheritList scope ns) = inheritList scope ns
  := by
  cases ns with
  | nil => rfl
  | cons n ns =>
      simp only [inheritList, inherit_inherit scope n, inheritList_inheritList scope ns]

end

theorem isCharacterData_inherit (scope : Option String) (n : Node) :
  (n.inherit scope).isCharacterData = n.isCharacterData
  := by
  cases n <;> simp [inherit, isCharacterData]

theorem any_inheritList (scope : Option String) (ns : List Node) :
  (inheritList scope ns).any isCharacterData = ns.any isCharacterData
  := by
  induction ns with
  | nil => rfl
  | cons n ns ih => rw [inheritList, List.any_cons, List.any_cons, isCharacterData_inherit, ih]

end Node

namespace Writing

open Node (inherit inheritList)

/-! ### Start tags -/

/-- The declaration in the start tag of an element, given the names of the elements around it: there
is one just if the element has a namespace, and the nearest element around it that has one is not in
the same. -/
def declarationInside (around : List QName) (name : QName) : List Char :=
  match name.space with
  | some uri =>
    if uri ≠ "" ∧ nearestSpace around ≠ some uri then
      " xmlns=\"".toList ++ escapeValue uri.toList ++ ['"']
    else []
  | none => []

/-- The start tag of an element up to its last bracket, given the names of the elements around
it. -/
def startTag (around : List QName) (name : QName) (attributes : Attributes) : List Char :=
  '<' :: name.localPart.toList ++ attributesText attributes ++ declarationInside around name

mutual

/-- The pieces of a node in order, given the names of the elements around it, the innermost
first. -/
def piecesInside (around : List QName) : Node → List Piece
  | .element name attributes children =>
    match children with
    | [] => [⟨.empty, startTag around name attributes ++ " />".toList⟩]
    | n :: ns =>
      ⟨.opening, startTag around name attributes ++ ['>']⟩
        :: (piecesInside (name :: around) n ++ piecesInsideList (name :: around) ns
          ++ [⟨.closing, endTag name⟩])
  | .text value => [⟨.data, escapeText value.toList⟩]
  | .cdata value => [⟨.data, cdataSections value.toList⟩]
  | .comment value => [⟨.aside, "<!--".toList ++ value.printed.toList ++ "-->".toList⟩]
  | .doctype d => [⟨.aside, doctypeText d⟩]

/-- The pieces of several nodes in order, given the names of the elements around them. -/
def piecesInsideList (around : List QName) : List Node → List Piece
  | [] => []
  | n :: ns => piecesInside around n ++ piecesInsideList around ns

end

/-- The writer declares what is declared inside the elements around. -/
theorem declarationInside_eq (around : List QName) (name : QName) :
  declarationInside around name = declarationOf (declared (nearestSpace around) name)
  := by
  have hopening : " xmlns=\"".toList = ' ' :: "xmlns".toList ++ ['=', '"'] := by decide
  unfold declarationInside declared
  cases name.space with
  | none => rfl
  | some uri =>
      by_cases huri : uri = ""
      · subst huri
        rfl
      · have hsome : nonempty? (some uri) = some uri := by simp [nonempty?, huri]
        by_cases hnear : nearestSpace around = some uri
        · simp [huri, hnear, hsome, declarationOf]
        · simp [huri, hnear, Ne.symm hnear, hsome, declarationOf, attributeText, hopening]

theorem startTag_eq (around : List QName) (name : QName) (attributes : Attributes) :
  startTag around name attributes = tagOpening (nearestSpace around) name attributes
  := by
  rw [startTag, tagOpening, attributesText_tagAttributes, declarationInside_eq, List.cons_append,
    List.cons_append, List.append_assoc, List.cons_append]

mutual

/-- The pieces of a node can be told from the elements around it. -/
theorem piecesInside_eq (around : List QName) (n : Node) :
  piecesInside around n = pieces (nearestSpace around) n
  := by
  cases n with
  | element name attributes children =>
      cases children with
      | nil => rw [piecesInside, pieces, startTag_eq]
      | cons n ns =>
          rw [piecesInside, pieces, startTag_eq, piecesInside_eq (name :: around) n,
            piecesInsideList_eq (name :: around) ns, nearestSpace_cons]
  | _ => simp [piecesInside, pieces]

theorem piecesInsideList_eq (around : List QName) (ns : List Node) :
  piecesInsideList around ns = piecesList (nearestSpace around) ns
  := by
  cases ns with
  | nil => rfl
  | cons n ns =>
      rw [piecesInsideList, piecesList, piecesInside_eq around n, piecesInsideList_eq around ns]

end

/-! ### Namespaces that are inherited -/

mutual

/-- A node is written the same when its elements have the namespaces that they inherit. -/
theorem nodeText_inherit (layout : Option Layout) (mixed started : Bool) (level : Nat)
    (scope : Option String) (n : Node) :
  nodeText layout mixed started level scope (n.inherit scope)
    = nodeText layout mixed started level scope n
  := by
  cases n with
  | element name attributes children =>
      cases children with
      | nil => simp [inherit, inheritList, nodeText, declared_normal]
      | cons c cs =>
          let inner := innerScope scope name
          have hchildren := nodesText_inherit layout mixed true (level + 1) inner (c :: cs)
          have hne : inheritList inner (c :: cs) ≠ [] := by simp [inheritList]
          rw [inherit, nodeText_children _ _ _ _ _ _ _ hne,
            nodeText_children _ _ _ _ _ _ _ (List.cons_ne_nil c cs), tagOpening_normal,
            innerScope_normal, hchildren, Node.any_inheritList]
          rfl
  | _ => simp [inherit]

theorem nodesText_inherit (layout : Option Layout) (mixed started : Bool) (level : Nat)
    (scope : Option String) (ns : List Node) :
  nodesText layout mixed started level scope (inheritList scope ns)
    = nodesText layout mixed started level scope ns
  := by
  cases ns with
  | nil => rfl
  | cons n ns =>
      rw [inheritList, nodesText, nodesText, nodeText_inherit layout mixed started level scope n,
        Node.isCharacterData_inherit, nodesText_inherit layout _ true level scope ns]

end

mutual

theorem allPrintable_inherit (scope : Option String) (n : Node) :
  allPrintable (n.inherit scope) = allPrintable n
  := by
  cases n with
  | element name attributes children =>
      rw [inherit, allPrintable, allPrintable,
        allPrintableList_inherit (innerScope scope name) children]
  | _ => simp [inherit]

theorem allPrintableList_inherit (scope : Option String) (ns : List Node) :
  allPrintableList (inheritList scope ns) = allPrintableList ns
  := by
  cases ns with
  | nil => rfl
  | cons n ns =>
      rw [inheritList, allPrintableList, allPrintableList, allPrintable_inherit scope n,
        allPrintableList_inherit scope ns]

end

end Writing

/-! ### Documents -/

namespace Document

/-- The document in which every element without a namespace is in that of the nearest element around
it that has one. -/
def withSpaces (d : Document) : Document :=
  { d with children := Node.withSpacesList [] d.children }

/-- The pieces of a document, unless it cannot be written, each start tag told from the elements
around it. -/
def piecesInside (layout : Layout) (d : Document) :
    Except RenderFault (List Writing.Piece) := do
  let head ← d.head layout
  if !Writing.allPrintableList d.children then .error .unprintable
  pure (head ++ Writing.piecesInsideList [] d.children)

theorem piecesInside_eq (layout : Layout) (d : Document) :
  d.piecesInside layout = d.pieces layout
  := by
  rw [piecesInside, pieces, Writing.piecesInsideList_eq]
  rfl

theorem withSpaces_eq (d : Document) :
  d.withSpaces = { d with children := Node.inheritList none d.children }
  := by
  rw [withSpaces, Node.withSpacesList_eq]
  rfl

/-- A document is written the same when elements without a namespace are put into that around
them. -/
theorem render_withSpaces (layout : Layout) (d : Document) (indented : Bool) :
  d.withSpaces.render layout indented = d.render layout indented
  := by
  rw [withSpaces_eq]
  simp only [render, Writing.documentText, Writing.allPrintableList_inherit,
    Writing.nodesText_inherit]

end Document

open Writing (written indented)

/-- The markup of a document consists of pieces, one behind another or with line breaks between
them, in which the start tag of an element holds a declaration just if the element has a namespace
and the nearest element around it that has one is not in the same; and it is the same when every
element without a namespace is put into that of the nearest element around it that has one, which
changes nothing the second time. -/
theorem namespaces_declared_once (layout : Layout) (d : Document) :
  d.render layout false = (d.piecesInside layout).map (fun ps => String.ofList (written ps))
    ∧ ((∀ n ∈ d.children, n.isCharacterData = false) → d.render layout true
      = (d.piecesInside layout).map (fun ps => String.ofList (indented layout [] ps)))
    ∧ (∀ isIndented, d.withSpaces.render layout isIndented = d.render layout isIndented)
    ∧ d.withSpaces.withSpaces = d.withSpaces
  := by
  rw [Document.piecesInside_eq]
  refine ⟨d.render_written layout, Document.render_indented layout,
    Document.render_withSpaces layout d, ?_⟩
  rw [Document.withSpaces_eq, Document.withSpaces_eq, Node.inheritList_inheritList]

/-- Namespaces that alternate, with an element without one and one with an empty one between them:
`a`, `d` and `e` declare theirs, and `c` does not, for it is in that of `a`. -/
theorem namespaces_declared_once_of_alternating :
  let element (name : String) (h : name ≠ "") (space : Option String) : List Node → Node :=
    .element ⟨name, space, h, none⟩ []
  let d : Document := { children := [element "a" (by decide) (some "u") [
    element "b" (by decide) none [element "c" (by decide) (some "u") [],
      element "d" (by decide) (some "v") [element "e" (by decide) (some "u") []]],
    element "f" (by decide) (some "") []]] }
  let layout : Layout := {}
  let text := "<a xmlns=\"u\"><b><c /><d xmlns=\"v\"><e xmlns=\"u\" /></d></b><f /></a>"
  d.render layout false = .ok text
    ∧ d.withSpaces.render layout false = .ok text
    ∧ d.render layout true
      = (d.piecesInside layout).map (fun ps => String.ofList (indented layout [] ps))
    ∧ d.withSpaces.children ≠ d.children
  := by
  intro element d layout text
  obtain ⟨hwritten, hindented, hspaces, -⟩ := namespaces_declared_once layout d
  have hdata : ∀ n ∈ d.children, n.isCharacterData = false := by
    simp [d, element, Node.isCharacterData]
  have hpieces : ((d.piecesInside layout).map fun ps => String.ofList (written ps)) = .ok text := rfl
  refine ⟨hwritten.trans hpieces, (hspaces false).trans (hwritten.trans hpieces),
    hindented hdata, fun heq => ?_⟩
  cases heq

end XmlDraft
