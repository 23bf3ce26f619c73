import XmlDraft.Name.Qualified
import XmlDraft.Text.Wording

/-!
# Documents

The tree of a document: elements with ordered attributes and mixed content, text, CDATA
sections, comments and document types, under a document with an optional declaration.
Main operations: attaching a node at the top level under the rules of document
structure, setting an attribute at its place, and selecting nodes.
-/

namespace XmlDraft

/-- A field of a declaration or a document type: a text, or a value of another kind,
which keeps its printed form, or none where it cannot be printed, and whether it counts
as empty. -/
inductive Field where
  | text (s : String)
  /-- A text that is a member of an enumeration, with its printed form. -/
  | member (s printed : String)
  | flag (b : Bool)
  | whole (n : Int)
  | other (printed : Option String) (isEmpty : Bool)
deriving DecidableEq, Repr

namespace Field

/-- The text of a field, if it is one. -/
def text? : Field → Option String
  | text s => some s
  | member s _ => some s
  | _ => none

/-- An empty text, a false flag, zero and an empty value count as empty. -/
def counts : Field → Bool
  | text s => s ≠ ""
  | member s _ => s ≠ ""
  | flag b => b
  | whole n => n ≠ 0
  | other _ isEmpty => !isEmpty

end Field

/-- The attributes of an element, each name once, in the order of first setting. -/
abbrev Attributes := List (String × String)

namespace Attributes

/-- Sets an attribute; one that is there already keeps its place. -/
def set (attributes : Attributes) (name value : String) : Attributes :=
  match attributes with
  | [] => [(name, value)]
  | (n, v) :: rest => if n = name then (n, value) :: rest else (n, v) :: set rest name value

/-- The value of an attribute, if it is set. -/
def get? (attributes : Attributes) (name : String) : Option String :=
  attributes.lookup name

end Attributes

/-- A document type: its name, its identifiers, and its internal subset. -/
structure Doctype where
  /-- The name. -/
  name : String
  /-- The public identifier, if any. -/
  publicId : Option Field := none
  /-- The system identifier, if any. -/
  systemId : Option Field := none
  /-- The text between the brackets, if there are any. -/
  subset : Option Field := none
deriving DecidableEq, Repr

/-- A declaration as recorded; fields that are not set get defaults in writing. -/
structure Declaration where
  /-- The version, if set. -/
  version : Option Field := none
  /-- The name of the encoding, if set. -/
  encoding : Option Field := none
  /-- The word for standing alone, if set. -/
  standalone : Option Field := none
deriving DecidableEq, Repr

namespace Declaration

/-- The version that is in effect, `unset` being the one of a declaration that sets none. -/
def effectiveVersion (d : Declaration) (unset : Field) : Field :=
  (d.version.filter Field.counts).getD unset

/-- The encoding that is in effect, `unset` being the one of a declaration that sets none. -/
def effectiveEncoding (d : Declaration) (unset : Field) : Field :=
  (d.encoding.filter Field.counts).getD unset

end Declaration

/-- A node of the tree. -/
inductive Node where
  | element (name : QName) (attributes : Attributes) (children : List Node)
  | text (value : String)
  | cdata (value : String)
  | comment (value : Wording)
  | doctype (d : Doctype)

/-- A document: its declaration, if it has one, and its nodes at the top level. -/
structure Document where
  /-- The declaration, if set. -/
  declaration : Option Declaration := none
  /-- The nodes at the top level, in order. -/
  children : List Node := []

/-- The ways in which a node can be out of place at the top level. -/
inductive Misplacement where
  | secondRoot (name : String)
  | secondDoctype
  | lateDoctype
  | topCData
  | topText
deriving DecidableEq, Repr

namespace Misplacement

/-- The wording of a misplacement. -/
def message : Misplacement → String
  | secondRoot name => "Document already has root element <" ++ name ++ ">"
  | secondDoctype => "Document already has a document type"
  | lateDoctype => "Document type must precede the root element"
  | topCData => "CDATA is not allowed at document level"
  | topText => "Text is not allowed at document level"

end Misplacement

/-- Whether a text would end a comment early or not at all. -/
def breaksComment : List Char → Bool
  | [] => false
  | ['-'] => true
  | '-' :: '-' :: _ => true
  | _ :: cs => breaksComment cs

namespace Node

/-- The name of an element. -/
def name? : Node → Option QName
  | element name _ _ => some name
  | _ => none

/-- Whether a node is a document type. -/
def isDoctype : Node → Bool
  | doctype _ => true
  | _ => false

/-- Whether a node is an element. -/
def isElement : Node → Bool
  | element .. => true
  | _ => false

/-- Whether a node is character data: text or a CDATA section. -/
def isCharacterData : Node → Bool
  | text _ => true
  | cdata _ => true
  | _ => false

/-- The characters of a node that is character data. -/
def characters : Node → String
  | text value => value
  | cdata value => value
  | _ => ""

/-- The children of an element. -/
def children : Node → List Node
  | element _ _ children => children
  | _ => []

/-- The character data directly inside an element. -/
def directText (n : Node) : String :=
  String.join (n.children.map characters)

mutual

/-- The character data of a node and of all nodes inside it. -/
def fullText : Node → String
  | element _ _ children => fullTextList children
  | text value => value
  | cdata value => value
  | comment _ => ""
  | doctype _ => ""

/-- The character data of several nodes and of all nodes inside them. -/
def fullTextList : List Node → String
  | [] => ""
  | n :: ns => fullText n ++ fullTextList ns

end

mutual

/-- The elements of a tree in document order, the node itself first. -/
def elements : Node → List Node
  | element name attributes children =>
    element name attributes children :: elementsList children
  | text _ => []
  | cdata _ => []
  | comment _ => []
  | doctype _ => []

/-- The elements of several trees in document order. -/
def elementsList : List Node → List Node
  | [] => []
  | n :: ns => elements n ++ elementsList ns

end

/-- Whether a tag selects a node. -/
def matchesTag (tag : String) : Node → Bool
  | element name _ _ => name.matchesTag tag
  | _ => false

end Node

namespace Document

/-- The document type, if there is one. -/
def doctype? (d : Document) : Option Doctype :=
  d.children.findSome? fun
    | .doctype t => some t
    | _ => none

/-- The root element, if there is one. -/
def root? (d : Document) : Option Node :=
  d.children.find? Node.isElement

/-- The first node at the top level that is no document type. -/
def firstNode? (d : Document) : Option Node :=
  d.children.find? fun n => !n.isDoctype

/-- The elements in document order. -/
def elements (d : Document) : List Node :=
  Node.elementsList d.children

/-- The first element that a tag selects, in document order. -/
def find? (d : Document) (tag : String) : Option Node :=
  d.elements.find? (Node.matchesTag tag)

/-- Why a node may not be attached at the top level, if it may not: there is one root
element and one document type, which comes first, and no character data. -/
def misplacement? (d : Document) : Node → Option Misplacement
  | .element .. => d.root?.map fun r => .secondRoot ((r.name?.map QName.printed).getD "")
  | .doctype _ =>
    if d.doctype?.isSome then some .secondDoctype
    else if d.root?.isSome then some .lateDoctype
    else none
  | .cdata _ => some .topCData
  | .text _ => some .topText
  | .comment _ => none

/-- Attaches a node as the last one at the top level, where the structure allows it. -/
def append (d : Document) (n : Node) : Except Misplacement Document :=
  match d.misplacement? n with
  | some m => .error m
  | none => .ok { d with children := d.children ++ [n] }

end Document

end XmlDraft
