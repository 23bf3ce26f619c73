import XmlDraft.Writing.Escape
import XmlDraft.Writing.Encoding
import XmlDraft.Json.Value

/-!
# Rendering

The markup of a document.  Without indentation nothing stands between two nodes.  With
it, elements, comments and document types begin on lines of their own, one step deeper
for each element around them, except at the very start of the output and where character
data has been written before them inside an element that is still open, or at the top
level.
-/

namespace XmlDraft

/-- How documents are laid out: the indentation of one level, the line terminator, and
the fields of a declaration that sets none. -/
structure Layout where
  /-- The indentation of one level. -/
  indent : String := "  "
  /-- The line terminator. -/
  newline : String := "\r\n"
  /-- The version of a declaration that sets none. -/
  version : Json := .str "1.0"
  /-- The encoding of a declaration that sets none. -/
  encoding : Json := .str "utf-8"

namespace Writing

/-- A line terminator and the indentation of a level. -/
def lineBreak (layout : Layout) (level : Nat) : List Char :=
  layout.newline.toList ++ (List.replicate level layout.indent.toList).flatten

/-- What stands before a node that begins a line: nothing without indentation, in mixed
content, and at the start of the output. -/
def breakLine (layout : Option Layout) (mixed started : Bool) (level : Nat) : List Char :=
  match layout with
  | some layout => if !mixed && started then lineBreak layout level else []
  | none => []

/-- A name and a value between double quotes, after a blank. -/
def attributeText (name : List Char) (value : String) : List Char :=
  ' ' :: name ++ '=' :: '"' :: escapeValue value.toList ++ ['"']

/-- The attributes of an element. -/
def attributesText : Attributes → List Char
  | [] => []
  | (name, value) :: rest => attributeText name.toList value ++ attributesText rest

/-- The namespace that an element declares: its own, if it has one that differs from the
default namespace in scope. -/
def declared (scope : Option String) (name : QName) : Option String :=
  match nonempty? name.space with
  | some uri => if some uri = scope then none else some uri
  | none => none

/-- The declaration of a default namespace. -/
def declarationOf : Option String → List Char
  | some uri => attributeText "xmlns".toList uri
  | none => []

/-- The printed form of a field. -/
def printed : Field → String
  | .text s => s
  | .member _ p => p
  | .flag b => if b then "True" else "False"
  | .whole n => Text.intText n
  | .other p _ => p.getD ""

/-- Whether a field has a printed form; numbers of more than 4300 digits have none. -/
def isPrintable : Field → Bool
  | .whole n => n.natAbs < Nat.pow 10 4300
  | .other p _ => p.isSome
  | _ => true

/-- The identifiers of a document type. -/
def identifiers (d : Doctype) : List Char :=
  match d.publicId, d.systemId with
  | some p, s =>
    let system := match s with
      | some f => if f.counts then printed f else ""
      | none => ""
    " PUBLIC \"".toList ++ (printed p).toList ++ "\" \"".toList ++ system.toList ++ ['"']
  | none, some s => " SYSTEM \"".toList ++ (printed s).toList ++ ['"']
  | none, none => []

/-- A document type. -/
def doctypeText (d : Doctype) : List Char :=
  let subset := match d.subset with
    | some f => '[' :: (printed f).toList ++ [']']
    | none => []
  "<!DOCTYPE ".toList ++ d.name.toList ++ identifiers d ++ subset ++ ['>']

mutual

/-- The markup of a node, given the layout if there is indentation, whether character
data came before, whether anything was written, the level, and the default namespace in
scope.  The name in the start tag is the local part, and the one in the end tag its
printed form, as is the text of a comment. -/
def nodeText (layout : Option Layout) (mixed started : Bool) (level : Nat)
    (scope : Option String) : Node → List Char
  | .element name attributes children =>
    let uri := declared scope name
    let opening :=
      breakLine layout mixed started level ++ '<' :: name.localPart.toList
        ++ attributesText attributes ++ declarationOf uri
    match children with
    | [] => opening ++ " />".toList
    | c :: cs =>
      let inner := uri.or scope
      opening ++ '>' :: nodeText layout mixed true (level + 1) inner c
        ++ nodesText layout (mixed || c.isCharacterData) true (level + 1) inner cs
        ++ breakLine layout (mixed || (c :: cs).any Node.isCharacterData) true level
        ++ "</".toList ++ name.printed.toList ++ ['>']
  | .text value => escapeText value.toList
  | .cdata value => cdataSections value.toList
  | .comment value =>
    breakLine layout mixed started level ++ "<!--".toList ++ value.printed.toList
      ++ "-->".toList
  | .doctype d => breakLine layout mixed started level ++ doctypeText d

/-- The markup of nodes one after another. -/
def nodesText (layout : Option Layout) (mixed started : Bool) (level : Nat)
    (scope : Option String) : List Node → List Char
  | [] => []
  | n :: ns =>
    nodeText layout mixed started level scope n
      ++ nodesText layout (mixed || n.isCharacterData) true level scope ns

end

mutual

/-- Whether all fields of the document types in a tree can be printed. -/
def allPrintable : Node → Bool
  | .element _ _ children => allPrintableList children
  | .doctype d => [d.publicId, d.systemId, d.subset].all fun f => f.all isPrintable
  | .text _ => true
  | .cdata _ => true
  | .comment _ => true

/-- Whether all fields of the document types in several trees can be printed. -/
def allPrintableList : List Node → Bool
  | [] => true
  | n :: ns => allPrintable n && allPrintableList ns

end

/-- A field of a declaration, or a default where it is not set or empty; it must be a
text. -/
def fieldOr (field : Option Field) (default' : Json) : Except RenderFault String :=
  let chosen := match field with
    | some f => if f.counts then f.text? else default'.text?
    | none => default'.text?
  match chosen with
  | some s => .ok s
  | none => .error .notText

/-- A declaration, whose version and encoding always show. -/
def declarationText (layout : Layout) (d : Declaration) : Except RenderFault (List Char) := do
  let version ← fieldOr d.version layout.version
  let encoding ← fieldOr d.encoding layout.encoding
  let standalone ← match d.standalone with
    | none => pure []
    | some f =>
      match f.text? with
      | some s => pure (attributeText "standalone".toList s)
      | none => .error .notText
  pure ("<?xml".toList ++ attributeText "version".toList version
    ++ attributeText "encoding".toList encoding ++ standalone ++ "?>".toList)

/-- The markup of a document. -/
def documentText (layout : Layout) (indented : Bool) (d : Document) :
    Except RenderFault (List Char) := do
  let head ← match d.declaration with
    | some declaration => declarationText layout declaration
    | none => pure []
  if !allPrintableList d.children then .error .unprintable
  let layout? := if indented then some layout else none
  pure (head ++ nodesText layout? false d.declaration.isSome 0 none d.children)

end Writing

namespace Document

/-- The markup of a document. -/
def render (d : Document) (layout : Layout) (indented : Bool) : Except RenderFault String :=
  (Writing.documentText layout indented d).map String.ofList

/-- The octets of a document in its encoding. -/
def renderOctets (d : Document) (layout : Layout) (indented : Bool) :
    Except RenderFault (List UInt8) := do
  let encoding ← OutputEncoding.select d.declaration
  let text ← Writing.documentText layout indented d
  pure (encoding.encode text)

end Document

end XmlDraft
