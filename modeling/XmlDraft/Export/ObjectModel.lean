import XmlDraft.Export.ElementTree

/-!
# The document object model

A document as nodes of a document object model: elements with attributes, among which the
declarations of namespaces come first, texts, CDATA sections, comments, instructions and the
document type.
-/

namespace XmlDraft

/-- An attribute of the object model: its name, its namespace, and its value, which is
missing where a default namespace is declared to be none. -/
structure ModelAttribute where
  /-- The name as written. -/
  name : String
  /-- The namespace, if any. -/
  space : Option String
  /-- The value. -/
  value : Option String
deriving DecidableEq, Repr

/-- A node of the object model. -/
inductive ModelNode where
  | element (name : String) (space : Option String) (attributes : List ModelAttribute)
      (children : List ModelNode)
  | text (data : String)
  | cdata (data : String)
  | comment (data : String)
  | instruction (target data : String)
  | doctype (name : String) (publicId systemId subset : Option String)

namespace ModelNode

/-- Whether a node is an element. -/
def isElement : ModelNode → Bool
  | element .. => true
  | _ => false

/-- Whether a node is a document type. -/
def isDoctype : ModelNode → Bool
  | doctype .. => true
  | _ => false

end ModelNode

namespace Export

open Reading (Event Label Manner)

/-- An element of the object model that is open. -/
structure OpenModel where
  /-- The name as written. -/
  name : String
  /-- The namespace, if any. -/
  space : Option String
  /-- The attributes. -/
  attributes : List ModelAttribute
  /-- The children so far, the latest first. -/
  children : List ModelNode := []

/-- A document of the object model that is being built. -/
structure ModelGrowth where
  /-- The open elements, the innermost first. -/
  opened : List OpenModel := []
  /-- The nodes at the top level, the latest first. -/
  top : List ModelNode := []
  /-- The document type that is being read: its name and its identifiers. -/
  doctype : Option (String × Option String × Option String) := none
  /-- The internal subset so far, if there is one. -/
  subset : Option String := none
  /-- The CDATA section so far, if one is open. -/
  openSection : Option String := none

namespace ModelGrowth

/-- Adds a node inside the innermost open element, or at the top level. -/
def add (g : ModelGrowth) (n : ModelNode) : ModelGrowth :=
  match g.opened with
  | o :: others => { g with opened := { o with children := n :: o.children } :: others }
  | [] => { g with top := n :: g.top }

/-- The nodes before the next one, the latest first, with one more piece of text. -/
def joinText (children : List ModelNode) (s : String) : List ModelNode :=
  match children with
  | .text before :: rest => .text (before ++ s) :: rest
  | _ => .text s :: children

/-- Adds character data. -/
def addCharacters (g : ModelGrowth) (s : String) : ModelGrowth :=
  match g.openSection, g.opened with
  | some before, _ => { g with openSection := some (before ++ s) }
  | none, o :: others =>
    { g with opened := { o with children := joinText o.children s } :: others }
  | none, [] => g

/-- Adds to the internal subset. -/
def addToSubset (g : ModelGrowth) (s : String) : ModelGrowth :=
  { g with subset := g.subset.map (· ++ s) }

/-- The attribute that declares a namespace. -/
def declaration (d : Option String × Option String) : ModelAttribute :=
  let name := match d.1 with
    | some p => "xmlns:" ++ p
    | none => "xmlns"
  ⟨name, some "http://www.w3.org/2000/xmlns/", d.2⟩

/-- Opens an element. -/
def start (g : ModelGrowth) (tag : Reading.Tag) : ModelGrowth :=
  let given := tag.given.map fun a => (⟨a.1.raw, a.1.space, some a.2⟩ : ModelAttribute)
  { g with
    opened :=
      ⟨tag.name.raw, tag.name.space, tag.declared.map declaration ++ given, []⟩ :: g.opened }

/-- Closes the innermost open element. -/
def finish (g : ModelGrowth) : ModelGrowth :=
  match g.opened with
  | o :: others =>
    { g with opened := others }.add (.element o.name o.space o.attributes o.children.reverse)
  | [] => g

/-- Closes the CDATA section; an empty one leaves nothing behind. -/
def closeSection (g : ModelGrowth) : ModelGrowth :=
  match g.openSection with
  | some s =>
    let g := { g with openSection := none }
    if s = "" then g else g.add (.cdata s)
  | none => g

/-- Closes the document type, whose name loses a prefix. -/
def closeDoctype (g : ModelGrowth) : ModelGrowth :=
  match g.doctype with
  | some (name, publicId, systemId) =>
    let localPart := match name.toList.span (· ≠ ':') with
      | (_, _ :: rest) => String.ofList rest
      | _ => name
    let subset := g.subset.map fun s => String.ofList (Text.unifyLines s.toList)
    { g with doctype := none, subset := none }.add (.doctype localPart publicId systemId subset)
  | none => g

end ModelGrowth

/-- The manner in which the object model reads markup: names are taken apart, and each element
type may be declared once. -/
def modelManner : Manner :=
  { separator := some ' ', distinctTypes := true }

/-- The object model with one more event. -/
def modelStep (g : ModelGrowth) : Event → ModelGrowth
  | .doctypeStart name systemId publicId hasSubset =>
    let publicId := publicId.map fun s => String.ofList (Reading.normalPublicId s.toList)
    { g with
      doctype := some (name, publicId, systemId)
      subset := if hasSubset then some "" else none }
  | .doctypeEnd => g.closeDoctype
  | .start tag => g.start tag
  | .finish => g.finish
  | .characters cs => g.addCharacters (String.ofList cs)
  | .comment text =>
    if g.subset.isSome then g.addToSubset ("<!--" ++ text ++ "-->") else g.add (.comment text)
  | .instruction raw target data =>
    if g.subset.isSome then g.addToSubset (String.ofList raw)
    else g.add (.instruction target data)
  | .cdataStart => { g with openSection := some "" }
  | .cdataEnd => g.closeSection
  | .plain raw => g.addToSubset (String.ofList raw)
  | _ => g

/-- The nodes at the top level of the object model of markup. -/
def objectModel (markup : String) : Except Unreadable (List ModelNode) :=
  (Reading.events modelManner (.text markup)).map fun es => (es.foldl modelStep {}).top.reverse

end Export

end XmlDraft
