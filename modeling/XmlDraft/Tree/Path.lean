import XmlDraft.Tree.Node
import XmlDraft.Text.Digits

/-!
# Paths

The path of an element from the top of its document: the local parts of the elements
around it and its own, each with its place among the siblings of the same name where
there are several.  The root element never shows a place.  A visit of a document lists
its elements with their paths and depths in document order.
-/

namespace XmlDraft

/-- An element as a visit meets it: the element, its path, and its depth. -/
structure Visit where
  /-- The element. -/
  node : Node
  /-- The path from the top of the document. -/
  path : String
  /-- The number of elements around it. -/
  depth : Nat

/-- One step of a path below `parent`: the printed local part, with the place among
`total` siblings of the same name when there are several. -/
def pathStep (parent : String) (name : QName) (place total : Nat) : String :=
  parent ++ "/" ++ name.printed
    ++ (if 1 < total then "[" ++ Text.natText place ++ "]" else "")

namespace Visit

/-- The number of nodes of a name. -/
def countName (name : QName) (ns : List Node) : Nat :=
  ns.countP fun n => n.name?.any name.same

mutual

/-- The visits of a tree whose root has a given path and depth. -/
def ofNode (path : String) (depth : Nat) : Node → List Visit
  | .element name attributes children =>
    ⟨.element name attributes children, path, depth⟩
      :: ofList path (depth + 1) children [] children
  | .text _ => []
  | .cdata _ => []
  | .comment _ => []
  | .doctype _ => []

/-- The visits of the remaining children of an element, `before` being those already
visited and `siblings` all of them. -/
def ofList (parent : String) (depth : Nat) (siblings before : List Node) :
    List Node → List Visit
  | [] => []
  | n :: ns =>
    let here :=
      match n.name? with
      | some name =>
        ofNode (pathStep parent name (countName name before + 1) (countName name siblings))
          depth n
      | none => []
    here ++ ofList parent depth siblings (before ++ [n]) ns

end

/-- The visits of the nodes at the top level, which show no place. -/
def ofTop : List Node → List Visit
  | [] => []
  | n :: ns =>
    let here :=
      match n.name? with
      | some name => ofNode (pathStep "" name 1 1) 0 n
      | none => []
    here ++ ofTop ns

end Visit

/-- The elements of a document in document order, with their paths and depths. -/
def Document.visits (d : Document) : List Visit :=
  Visit.ofTop d.children

end XmlDraft
