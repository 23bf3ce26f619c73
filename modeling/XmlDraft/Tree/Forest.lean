import XmlDraft.Tree.Data
import XmlDraft.Writing.Render
import XmlDraft.Fault

/-!
# Forests

Nodes and documents that are made one by one and attached to each other later.  A node is
known by its number and holds the numbers of its children; it remembers where it was
attached last, but nothing keeps it from being attached at several places, or inside itself.
A walk through a node that is inside itself ends in a fault.
-/

namespace XmlDraft

/-- What a node or document of a forest holds, the children by their numbers. -/
inductive Cell where
  | element (name : QName) (attributes : Attributes) (children : List Nat)
  | text (value : String)
  | cdata (value : String)
  | comment (value : Wording)
  | doctype (d : Doctype)
  /-- A node of no kind. -/
  | bare
  | document (declaration : Option Declaration) (children : List Nat)

namespace Cell

/-- The name of an element. -/
def name? : Cell → Option QName
  | element name _ _ => some name
  | _ => none

/-- Whether a cell holds an element. -/
def isElement (c : Cell) : Bool :=
  c.name?.isSome

/-- Whether a cell holds a document type. -/
def isDoctype : Cell → Bool
  | doctype _ => true
  | _ => false

/-- The attributes of an element. -/
def attributes? : Cell → Option Attributes
  | element _ attributes _ => some attributes
  | _ => none

/-- The children of an element or a document. -/
def children? : Cell → Option (List Nat)
  | element _ _ children => some children
  | document _ children => some children
  | _ => none

/-- The characters of a node that is character data. -/
def characters? : Cell → Option String
  | text value => some value
  | cdata value => some value
  | _ => none

/-- The word for the kind of a node; a document is none. -/
def kind? : Cell → Option String
  | element .. => some "element"
  | text _ => some "text"
  | cdata _ => some "cdata"
  | comment _ => some "comment"
  | doctype _ => some "doctype"
  | bare => some "node"
  | document .. => none

/-- A cell with other children. -/
def withChildren (c : Cell) (children : List Nat) : Cell :=
  match c with
  | element name attributes _ => element name attributes children
  | document declaration _ => document declaration children
  | c => c

/-- A cell with another value, where it has one. -/
def withValue (c : Cell) (value : String) : Cell :=
  match c with
  | text _ => text value
  | cdata _ => cdata value
  | comment _ => comment value
  | c => c

/-- The node that a cell holds, without what is inside it. -/
def shell? : Cell → Option Node
  | element name attributes _ => some (.element name attributes [])
  | text value => some (.text value)
  | cdata value => some (.cdata value)
  | comment value => some (.comment value)
  | doctype d => some (.doctype d)
  | bare => none
  | document .. => none

end Cell

/-- A cell and the number of the container to which it was attached last. -/
structure Plant where
  /-- What the node or document holds. -/
  cell : Cell
  /-- The container. -/
  parent : Option Nat := none

/-- Nodes and documents by number. -/
structure Forest where
  /-- The nodes and documents in the order in which they were made. -/
  plants : List Plant := []

namespace Forest

/-- The number of nodes and documents, which is the number that the next one gets. -/
def size (f : Forest) : Nat :=
  f.plants.length

/-- What a node or document holds. -/
def cell? (f : Forest) (i : Nat) : Option Cell :=
  f.plants[i]?.map Plant.cell

/-- The container to which a node was attached last. -/
def parent? (f : Forest) (i : Nat) : Option Nat :=
  f.plants[i]?.bind Plant.parent

/-- Whether a number belongs to an element. -/
def isElement (f : Forest) (i : Nat) : Bool :=
  (f.cell? i).any Cell.isElement

/-! ### Making and attaching -/

/-- The forest with one more node or document. -/
def grow (f : Forest) (c : Cell) : Forest :=
  ⟨f.plants ++ [⟨c, none⟩]⟩

/-- The forest in which a node or document holds something else. -/
def put (f : Forest) (i : Nat) (c : Cell) : Forest :=
  ⟨f.plants.modify i fun p => { p with cell := c }⟩

/-- The forest in which a node was last attached to a container. -/
def adopt (f : Forest) (parent child : Nat) : Forest :=
  ⟨f.plants.modify child fun p => { p with parent := some parent }⟩

/-- The forest with one more element, to which its children are attached. -/
def addElement (f : Forest) (clark : String) (attributes : Attributes) (children : List Nat) :
    Except Fault Forest :=
  match QName.ofClark? clark with
  | none => .error .emptyLocalPart
  | some name =>
    .ok (children.foldl (fun g c => g.adopt f.size c) (f.grow (.element name attributes children)))

/-- The forest with one more comment, whose text does not break it. -/
def addComment (f : Forest) (value : String) : Except Fault Forest :=
  if breaksComment value.toList then .error (.misuse .commentDashes)
  else .ok (f.grow (.comment value))

/-- The document of the nodes with some numbers, without what is inside them. -/
def surface (f : Forest) (children : List Nat) : Document :=
  ⟨none, children.filterMap fun i => (f.cell? i).bind Cell.shell?⟩

/-- Why a node may not be attached to a container, if it may not; only documents have rules
for that. -/
def misplacement? (f : Forest) (container new : Cell) : Option Misplacement :=
  match container with
  | .document _ children => new.shell?.bind (f.surface children).misplacement?
  | _ => none

/-- The forest in which a node is the last child of a container. -/
def append (f : Forest) (container : Nat) (node : Option Nat) : Except Fault Forest :=
  match f.cell? container with
  | none => .error .noAttribute
  | some c =>
    match c.children? with
    | none => .error .noAttribute
    | some children =>
      match node, node.bind f.cell? with
      | some i, some new =>
        if new.kind?.isNone then .error .notNode
        else
          match f.misplacement? c new with
          | some m => .error (.misplaced m)
          | none => .ok ((f.adopt container i).put container (c.withChildren (children ++ [i])))
      | _, _ => .error .notNode

/-! ### Walking -/

/-- The elements among nodes with some numbers. -/
def elementsAmong (f : Forest) (children : List Nat) : List Nat :=
  children.filter f.isElement

/-- The child elements of an element or a document. -/
def elements (f : Forest) (i : Nat) : Except Fault (List Nat) :=
  match (f.cell? i).bind Cell.children? with
  | some children => .ok (f.elementsAmong children)
  | none => .error .noAttribute

/-- The elements inside a node in document order, and whether the walk comes to its end
within a number of levels. -/
def walk (f : Forest) : Nat → Nat → List Nat × Bool
  | 0, _ => ([], false)
  | fuel + 1, i =>
    let visit := fun (before : List Nat × Bool) (c : Nat) =>
      if before.2 then
        let inside := walk f fuel c
        (before.1 ++ c :: inside.1, inside.2)
      else before
    (f.elementsAmong (((f.cell? i).bind Cell.children?).getD [])).foldl visit ([], true)

/-- The elements inside an element or a document that are met in document order, and whether
the walk ends. -/
def descendants (f : Forest) (i : Nat) : Except Fault (List Nat × Bool) :=
  match (f.cell? i).bind Cell.children? with
  | some _ => .ok (f.walk (f.size + 1) i)
  | none => .error .noAttribute

/-- Whether a tag selects the element of a number. -/
def matchesTag (f : Forest) (tag : String) (i : Nat) : Bool :=
  ((f.cell? i).bind Cell.name?).any fun name => name.matchesTag tag

/-- All elements inside an element or a document. -/
def allInside (f : Forest) (i : Nat) : Except Fault (List Nat) := do
  let (inside, ends) ← f.descendants i
  if ends then .ok inside else .error .endless

/-- The first element inside an element or a document that a tag selects. -/
def find (f : Forest) (tag : String) (i : Nat) : Except Fault (Option Nat) := do
  let (inside, ends) ← f.descendants i
  match inside.find? (f.matchesTag tag) with
  | some found => .ok (some found)
  | none => if ends then .ok none else .error .endless

/-- The elements inside an element or a document that a tag selects. -/
def findAll (f : Forest) (tag : String) (i : Nat) : Except Fault (List Nat) :=
  (f.allInside i).map fun inside => inside.filter (f.matchesTag tag)

/-- The children of a document. -/
def top (f : Forest) (i : Nat) : Except Fault (List Nat) :=
  match f.cell? i with
  | some (.document _ children) => .ok children
  | _ => .error .noAttribute

/-- The root element of a document. -/
def root (f : Forest) (i : Nat) : Except Fault (Option Nat) :=
  (f.top i).map fun children => children.find? f.isElement

/-- The document type of a document. -/
def doctype (f : Forest) (i : Nat) : Except Fault (Option Nat) :=
  (f.top i).map fun children => children.find? fun c => (f.cell? c).any Cell.isDoctype

/-- The first node of a document that is no document type. -/
def firstNode (f : Forest) (i : Nat) : Except Fault (Option Nat) :=
  (f.top i).map fun children => children.find? fun c => !(f.cell? c).any Cell.isDoctype

/-- The number of elements around a node, as it was attached last. -/
def depthWithin (f : Forest) : Nat → Nat → Except Fault Nat
  | 0, _ => .error .endless
  | fuel + 1, i =>
    match f.parent? i with
    | none => .ok 0
    | some p => if f.isElement p then (depthWithin f fuel p).map (· + 1) else .ok 0

/-- The path of an element, as it was attached last, by the names of the elements around
it. -/
def pathWithin (f : Forest) : Nat → Nat → Except Fault String
  | 0, _ => .error .endless
  | fuel + 1, i =>
    match (f.cell? i).bind Cell.name? with
    | none => .error .noAttribute
    | some name =>
      match (f.parent? i).filter f.isElement with
      | none => .ok (pathStep "" name 1 1)
      | some p => do
        let siblings := (← f.elements p).filter fun c =>
          ((f.cell? c).bind Cell.name?).any name.same
        let around ← pathWithin f fuel p
        .ok (pathStep around name (siblings.idxOf i + 1) siblings.length)

/-- The number of elements around a node; a document has none. -/
def depth (f : Forest) (i : Nat) : Except Fault Nat :=
  if ((f.cell? i).bind Cell.kind?).isNone then .error .noAttribute
  else f.depthWithin (f.size + 1) i

/-- The path of an element. -/
def path (f : Forest) (i : Nat) : Except Fault String :=
  f.pathWithin (f.size + 1) i

/-! ### Contents -/

/-- The character data directly inside an element. -/
def directText (f : Forest) (children : List Nat) : String :=
  String.join (children.filterMap fun c => (f.cell? c).bind Cell.characters?)

/-- The character data inside a node and inside all elements in it. -/
def fullTextWithin (f : Forest) : Nat → Nat → Except Fault String
  | 0, _ => .error .endless
  | fuel + 1, i =>
    match f.cell? i with
    | some (.element _ _ children) =>
      (children.mapM (fullTextWithin f fuel)).map String.join
    | some c => .ok (c.characters?.getD "")
    | none => .ok ""

/-- The character data of an element and of all elements inside it. -/
def fullText (f : Forest) (i : Nat) : Except Fault String :=
  if f.isElement i then f.fullTextWithin (f.size + 1) i else .error .noAttribute

/-- A node or document as data. -/
def dataWithin (f : Forest) : Nat → Nat → Except Fault Json
  | 0, _ => .error .endless
  | fuel + 1, i =>
    match f.cell? i with
    | some (.element name attributes children) =>
      (children.mapM (dataWithin f fuel)).map (Node.elementData name attributes)
    | some (.document declaration children) =>
      (children.mapM (dataWithin f fuel)).map fun items =>
        .obj [("declaration", (declaration.map Declaration.data).getD .null),
          ("children", .arr items)]
    | some (.text value) => .ok (Node.leafData "text" value)
    | some (.cdata value) => .ok (Node.leafData "cdata" value)
    | some (.comment value) => .ok (Node.leafData "comment" value.text)
    | some (.doctype d) => .ok d.data
    | some .bare => .error .notImplemented
    | none => .error .noAttribute

/-- A node or document as data. -/
def data (f : Forest) (i : Nat) : Except Fault Json :=
  f.dataWithin (f.size + 1) i

/-- The tree of a node. -/
def treeWithin (f : Forest) : Nat → Nat → Except Fault Node
  | 0, _ => .error .endless
  | fuel + 1, i =>
    match f.cell? i with
    | some (.element name attributes children) =>
      (children.mapM (treeWithin f fuel)).map (Node.element name attributes)
    | some (.text value) => .ok (.text value)
    | some (.cdata value) => .ok (.cdata value)
    | some (.comment value) => .ok (.comment value)
    | some (.doctype d) => .ok (.doctype d)
    | some .bare => .error (.cannotRender "XMLNode")
    | some (.document ..) => .error (.cannotRender "XMLDocument")
    | none => .error .noAttribute

/-- The declaration of a document. -/
def declaration (f : Forest) (i : Nat) : Except Fault (Option Declaration) :=
  match f.cell? i with
  | some (.document declaration _) => .ok declaration
  | _ => .error .noAttribute

/-- The markup of a document, whose declaration is written before any node is looked at. -/
def render (f : Forest) (i : Nat) (layout : Layout) (indented : Bool) : Except Fault String := do
  let declaration ← f.declaration i
  let children ← f.top i
  let _ ← ((⟨declaration, []⟩ : Document).render layout indented).mapError Fault.ofRender
  let trees ← children.mapM (f.treeWithin (f.size + 1))
  ((⟨declaration, trees⟩ : Document).render layout indented).mapError Fault.ofRender

/-- The octets of a document in its encoding. -/
def renderOctets (f : Forest) (i : Nat) (layout : Layout) (indented : Bool) :
    Except Fault (List UInt8) := do
  let encoding ← (OutputEncoding.select (← f.declaration i)).mapError Fault.ofRender
  let text ← f.render i layout indented
  .ok (encoding.encode text.toList)

end Forest

end XmlDraft
