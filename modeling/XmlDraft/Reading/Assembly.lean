import XmlDraft.Reading.Markup
import XmlDraft.Fault

/-!
# Documents from markup

The document of a sequence of events, put together event by event.  An attribute named
`xmlns` sets the default namespace of its element and of the elements inside it.  Pieces of
character data that follow one another make one text; instructions and empty CDATA sections
leave nothing behind, and the internal subset of a document type is kept as it is written.
-/

namespace XmlDraft

namespace Reading

/-- An element that is open, with its children so far. -/
structure OpenElement where
  /-- The name. -/
  name : QName
  /-- The attributes. -/
  attributes : Attributes
  /-- The children so far. -/
  children : List Node := []

/-- A document that is put together. -/
structure Assembly where
  /-- The document, with the nodes at the top level that are complete. -/
  document : Document := {}
  /-- The open elements, the innermost first. -/
  opened : List OpenElement := []
  /-- The default namespaces in scope, the innermost first. -/
  spaces : List (Option String) := [none]
  /-- The document type that is being read. -/
  doctype : Option Doctype := none
  /-- The internal subset so far, if there is one. -/
  subset : Option String := none
  /-- The CDATA section so far, if one is open. -/
  openSection : Option String := none

namespace Assembly

/-- The attributes of a tag without declarations of a default namespace, and the namespace
in scope inside it. -/
def attributesOf (space : Option String) :
    List (Label × String) → Attributes → Attributes × Option String
  | [], held => (held, space)
  | (l, value) :: rest, held =>
    if l.raw = "xmlns" then attributesOf (nonempty? (some value)) rest held
    else attributesOf space rest (Attributes.set held l.raw value)

/-- A list of children with one more; a text behind a text goes on with it. -/
def join (children : List Node) (s : String) : List Node :=
  match children.getLast? with
  | some (.text before) => children.dropLast ++ [.text (before ++ s)]
  | _ => children ++ [.text s]

/-- Puts a node at the end of the innermost open element, or at the top level. -/
def attach (a : Assembly) (n : Node) : Except Fault Assembly :=
  match a.opened with
  | o :: others => .ok { a with opened := { o with children := o.children ++ [n] } :: others }
  | [] => ((a.document.append n).mapError Fault.misplaced).map fun d => { a with document := d }

/-- Opens the element of a tag. -/
def openTag (a : Assembly) (t : Tag) : Except Fault Assembly :=
  let (attributes, space) := attributesOf (a.spaces.headD none) t.given []
  match QName.of? t.name.raw space with
  | none => .error .emptyLocalPart
  | some name =>
    .ok { a with opened := ⟨name, attributes, []⟩ :: a.opened, spaces := space :: a.spaces }

/-- Closes the innermost open element. -/
def closeTag (a : Assembly) : Except Fault Assembly :=
  match a.opened with
  | o :: others =>
    { a with opened := others, spaces := a.spaces.tail }.attach
      (.element o.name o.attributes o.children)
  | [] => .ok a

/-- Adds character data, which leaves nothing behind at the top level. -/
def addCharacters (a : Assembly) (s : String) : Assembly :=
  match a.openSection with
  | some before => { a with openSection := some (before ++ s) }
  | none =>
    match a.opened with
    | o :: others => { a with opened := { o with children := join o.children s } :: others }
    | [] => a

/-- Adds to the internal subset, if there is one. -/
def addToSubset (a : Assembly) (s : String) : Assembly :=
  { a with subset := a.subset.map (· ++ s) }

/-- Adds a comment, which in the internal subset is part of its text. -/
def addComment (a : Assembly) (s : String) : Except Fault Assembly :=
  if a.subset.isSome then .ok (a.addToSubset ("<!--" ++ s ++ "-->")) else a.attach (.comment s)

/-- Closes the document type. -/
def closeDoctype (a : Assembly) : Except Fault Assembly :=
  match a.doctype with
  | none => .ok a
  | some d =>
    let d := match a.subset with
      | some s => { d with subset := some (.text s) }
      | none => d
    { a with doctype := none, subset := none }.attach (.doctype d)

/-- Closes the CDATA section. -/
def closeSection (a : Assembly) : Except Fault Assembly :=
  match a.openSection with
  | some s =>
    let a := { a with openSection := none }
    if s = "" then .ok a else a.attach (.cdata s)
  | none => .ok a

/-- A public identifier with its blanks normalised. -/
def normalIdentifier (s : String) : String :=
  String.ofList (normalPublicId s.toList)

/-- The word for standing alone or not. -/
def standaloneWord (b : Bool) : Field :=
  .text (if b then "yes" else "no")

/-- The document with one more event. -/
def step (a : Assembly) : Event → Except Fault Assembly
  | .declaration version encoding standalone =>
    let d : Declaration :=
      ⟨some (.text version), encoding.map Field.text, standalone.map standaloneWord⟩
    .ok { a with document.declaration := some d }
  | .doctypeStart name systemId publicId hasSubset =>
    .ok { a with
      doctype :=
        some ⟨name, (publicId.map normalIdentifier).map Field.text, systemId.map Field.text, none⟩
      subset := if hasSubset then some "" else none }
  | .doctypeEnd => a.closeDoctype
  | .start tag => a.openTag tag
  | .finish => a.closeTag
  | .characters cs => .ok (a.addCharacters (String.ofList cs))
  | .comment text => a.addComment text
  | .instruction raw _ _ => .ok (a.addToSubset (String.ofList raw))
  | .cdataStart => .ok { a with openSection := some "" }
  | .cdataEnd => a.closeSection
  | .plain raw => .ok (a.addToSubset (String.ofList raw))
  | .unresolved _ => .ok a

/-- The document with several more events. -/
def run (a : Assembly) : List Event → Except Fault Assembly
  | [] => .ok a
  | e :: es => do
    let a ← a.step e
    a.run es

end Assembly

end Reading

/-- The document of a sequence of events, which must have a root. -/
def Document.ofEvents (es : List Reading.Event) : Except Fault Document := do
  let a ← ({} : Reading.Assembly).run es
  if a.document.root?.isSome then .ok a.document else .error (.unreadable .rootless)

/-- The document that a source of markup writes. -/
def readDocument (source : Source) : Except Fault Document := do
  let es ← (Reading.events {} source).mapError Fault.unreadable
  Document.ofEvents es

end XmlDraft
