import XmlDraft.Building.Builder
import XmlDraft.Export.ObjectModel

/-!
# Views

What a builder shows of its document: the markup as text or octets, the encoding, the tree
and its parts, and the forms that other readers of markup give to it.  Those forms are read
again from the markup, so that a child without a namespace is in the one around it there.
-/

namespace XmlDraft

/-- A view of a document. -/
inductive View where
  | markup (indented : Bool)
  | octets (indented : Bool)
  | encoding
  | shown
  | document
  | root
  | firstNode
  | paths
  | texts
  | plainTree
  | fullTree
  | fullRoot
  | fullFirstNode
  | objectModel
  | modelFirstNode
  | modelRoot
deriving DecidableEq, Repr

/-- What a view shows. -/
inductive Shown where
  | text (s : String)
  | octets (os : List UInt8)
  /-- A way to build an element, in place of an encoding that cannot be told. -/
  | tagCall
  | document (d : Document)
  | node (n : Option Node)
  | paths (vs : List Visit)
  | texts (vs : List Node)
  | tree (t : Option ElementTree)
  | fullTree (t : Option Export.FullTree)
  | model (ns : List ModelNode)
  | modelNode (n : Option ModelNode)

namespace Builder

/-- The wording of a cause of failure and its place, as exporters word it. -/
def exportMessage : Unreadable → String
  | .malformed cause p =>
    cause.message ++ ": line " ++ Text.natText p.line ++ ", column " ++ Text.natText p.column
  | u => u.message

/-- What an exporter makes of the markup of the document, or nothing without a root;
writing the markup is recorded. -/
def exported {α : Type} (b : Builder) (nothing : α) (f : String → Except Fault α) :
    Builder × Except Fault α :=
  if b.draft.document.root?.isNone then (b, .ok nothing)
  else
    match b.render false with
    | (b, .ok text) => (b, f text)
    | (b, .error e) => (b, .error e)

/-- The plain form of the document. -/
def plainTree (b : Builder) : Builder × Except Fault (Option ElementTree) :=
  b.exported none fun text =>
    (Export.plain text).mapError fun u => .export .plain (exportMessage u)

/-- The full form of the document, as a reader of markup makes it. -/
def fullTreeBy (read : Export.FullReader) (b : Builder) :
    Builder × Except Fault (Option Export.FullTree) :=
  b.exported none fun text =>
    match read text with
    | .ok (some t) => .ok (some t)
    | .ok none => .error (.export .full "")
    | .error u => .error (.export .full (exportMessage u))

/-- The full form of the document, as `Export.full` makes it. -/
def fullTree (b : Builder) : Builder × Except Fault (Option Export.FullTree) :=
  b.fullTreeBy Export.full

/-- The object model of the document. -/
def objectModel (b : Builder) : Builder × Except Fault (List ModelNode) :=
  b.exported [] fun text =>
    (Export.objectModel text).mapError fun
      | .malformed (.repeatedType _) _ => .repeatedType
      | u => .export .objectModel (exportMessage u)

/-- What a view shows; writing markup for it is recorded. -/
def view (b : Builder) (v : View) : Builder × Except Fault Shown :=
  let d := b.draft.document
  let show' := fun {α : Type} (r : Builder × Except Fault α) (f : α → Shown) =>
    (r.1, r.2.map f)
  match v with
  | .markup indented => show' (b.render indented) .text
  | .octets indented => show' (b.renderOctets indented) .octets
  | .encoding =>
    (b, match b.encoding with
      | .ok e => .ok (.text e.name)
      | .error _ => .ok .tagCall)
  | .shown => (b, .ok (.text b.shown))
  | .document => (b, .ok (.document d))
  | .root => (b, .ok (.node d.root?))
  | .firstNode => (b, .ok (.node d.firstNode?))
  | .paths => (b, .ok (.paths d.visits))
  | .texts => (b, .ok (.texts d.elements))
  | .plainTree => show' b.plainTree .tree
  | .fullTree => show' b.fullTree .fullTree
  | .fullRoot => show' b.fullTree fun t => .tree (t.map (·.root))
  | .fullFirstNode => show' b.fullTree fun t => .tree (t.map (·.firstNode))
  | .objectModel => show' b.objectModel .model
  | .modelFirstNode => show' b.objectModel fun ns => .modelNode (ns.find? fun n => !n.isDoctype)
  | .modelRoot => show' b.objectModel fun ns => .modelNode (ns.find? (·.isElement))

end Builder

end XmlDraft
