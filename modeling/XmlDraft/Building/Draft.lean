import XmlDraft.Fault
import XmlDraft.Tree.Path

/-!
# Drafts

A document that is being built, with the elements that are open.  A new node goes to the
end of the innermost open element, or to the top level when none is open.  An element is
known by its place, the positions of the nodes on the way down to it; only a child of the
innermost open element can be opened, and closing gives back the one around it.
-/

namespace XmlDraft

/-- The way from the top of a document down to a node: its position among the children at
each level, outermost first. -/
abbrev Place := List Nat

namespace Node

/-- The list with a node at the end of the children of the node at a place. -/
def appendAt (new : Node) : Place → List Node → List Node
  | [], ns => ns ++ [new]
  | i :: rest, ns =>
    ns.modify i fun
      | element name attributes children => element name attributes (appendAt new rest children)
      | n => n

/-- The children of the node at a place. -/
def childrenAt : Place → List Node → List Node
  | [], ns => ns
  | i :: rest, ns => childrenAt rest ((ns[i]?.map children).getD [])

end Node

/-- A document that is being built, with the places of its open elements, the innermost
first. -/
structure Draft where
  /-- The document. -/
  document : Document := {}
  /-- The places of the open elements. -/
  opened : List Place := []

namespace Draft

/-- The place of the innermost open element, or the top. -/
def current (d : Draft) : Place :=
  d.opened.headD []

/-- The number of open elements. -/
def depth (d : Draft) : Nat :=
  d.opened.length

/-- The number of children at the current place. -/
def width (d : Draft) : Nat :=
  (Node.childrenAt d.current d.document.children).length

/-- Attaches a node at the current place, where the structure of documents allows it. -/
def append (d : Draft) (n : Node) : Except Fault Draft :=
  match d.opened with
  | [] => ((d.document.append n).mapError Fault.misplaced).map fun doc => { d with document := doc }
  | place :: _ =>
    .ok { d with document.children := Node.appendAt n place d.document.children }

/-- The place that the next node gets. -/
def nextPlace (d : Draft) : Place :=
  d.current ++ [d.width]

/-- Opens the element at a place, which must be a child of the current one. -/
def push (d : Draft) (place : Place) : Except Fault Draft :=
  if place ≠ [] && place.dropLast = d.current then
    .ok { d with opened := place :: d.opened }
  else .error .notChild

/-- Closes the innermost open element. -/
def pop (d : Draft) : Except Fault Draft :=
  match d.opened with
  | [] => .error .atTop
  | _ :: rest => .ok { d with opened := rest }

end Draft

end XmlDraft
