import XmlDraft.Tree.Path
import XmlDraft.Json.Value

/-!
# Documents as data

Trees as plain data: every node is an object that names its type, parts that are missing
or empty being left out.
-/

namespace XmlDraft

/-- A field as data. -/
def Field.data : Field → Json
  | .text s => .str s
  | .member s _ => .str s
  | .flag b => .bool b
  | .whole n => .int n
  | .other p _ => (p.map Json.str).getD .null

/-- An optional text as data. -/
def Json.ofText? (s : Option String) : Json :=
  (s.map str).getD null

/-- Pairs of texts as data. -/
def Json.ofPairs (ps : List (String × String)) : Json :=
  arr (ps.map fun p => arr [str p.1, str p.2])

/-- A document type as data. -/
def Doctype.data (d : Doctype) : Json :=
  let part := fun (name : String) (f : Option Field) => (f.map fun f => (name, f.data)).toList
  .obj ([("type", .str "doctype"), ("name", .str d.name)] ++ part "public_id" d.publicId
    ++ part "system_id" d.systemId ++ part "internal_subset" d.subset)

/-- A declaration as data. -/
def Declaration.data (d : Declaration) : Json :=
  let field := fun (f : Option Field) => (f.map Field.data).getD .null
  .obj [("version", field d.version), ("encoding", field d.encoding),
    ("standalone", field d.standalone)]

namespace Node

/-- A node with a value as data. -/
def leafData (type value : String) : Json :=
  .obj [("type", .str type), ("value", .str value)]

/-- An element as data, given its children as data. -/
def elementData (name : QName) (attributes : Attributes) (children : List Json) : Json :=
  .obj ([("type", .str "element"), ("tag", .str name.clark)]
    ++ (if attributes.isEmpty then [] else [("attributes", Json.ofPairs attributes)])
    ++ (if children.isEmpty then [] else [("children", Json.arr children)]))

mutual

/-- A node as data. -/
def data : Node → Json
  | element name attributes children => elementData name attributes (dataList children)
  | text value => leafData "text" value
  | cdata value => leafData "cdata" value
  | comment value => leafData "comment" value.text
  | doctype d => d.data

/-- Several nodes as data. -/
def dataList : List Node → List Json
  | [] => []
  | n :: ns => data n :: dataList ns

end

end Node

/-- A document as data. -/
def Document.data (d : Document) : Json :=
  .obj [("declaration", (d.declaration.map Declaration.data).getD .null),
    ("children", .arr (Node.dataList d.children))]

end XmlDraft
