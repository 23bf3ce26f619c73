import XmlDraft.Reading.Markup
import XmlDraft.Name.Uri
import XmlDraft.Name.Qualified

/-!
# Element trees

Trees in which character data hangs on its neighbours: a node has a text, which stands
before its first child, and a tail, which follows it.  The plain form of a document keeps
what is inside the root; the full form also keeps the comments and instructions around it,
the document type, and the references that are not replaced.  The full form is made by a reader
of its own, which is not part of the builder: what is said of it is said of any reader, and
`Export.full` is one by which views can be computed.
-/

namespace XmlDraft

/-- What a node of an element tree is. -/
inductive TreeLabel where
  /-- An element, by its name in Clark notation. -/
  | element (clark : String)
  | comment
  | instruction
  /-- A reference to an entity. -/
  | entity
deriving DecidableEq, Repr

/-- A node of an element tree: its label, attributes, text, tail and children. -/
inductive ElementTree where
  | node (label : TreeLabel) (attributes : List (String × String)) (text tail : Option String)
      (children : List ElementTree)

namespace ElementTree

/-- A node without children and attributes. -/
def leaf (label : TreeLabel) (text : Option String) : ElementTree :=
  .node label [] text none []

/-- The text before a further one, if there is one, and that one. -/
def joined (before : Option String) (s : String) : Option String :=
  some (before.getD "" ++ s)

/-- The node with a longer tail. -/
def addTail (s : String) : ElementTree → ElementTree
  | node label attributes text tail children =>
    node label attributes text (joined tail s) children

/-- An element that is open. -/
structure Open where
  /-- The name in Clark notation. -/
  clark : String
  /-- The attributes. -/
  attributes : List (String × String)
  /-- The text before the first child. -/
  text : Option String := none
  /-- The children so far, the latest first. -/
  children : List ElementTree := []

/-- A tree that is being built. -/
structure Growth where
  /-- The open elements, the innermost first. -/
  opened : List Open := []
  /-- The nodes at the top level, the latest first. -/
  top : List ElementTree := []

namespace Growth

/-- Adds a node inside the innermost open element, or at the top level. -/
def add (g : Growth) (t : ElementTree) : Growth :=
  match g.opened with
  | o :: others => { g with opened := { o with children := t :: o.children } :: others }
  | [] => { g with top := t :: g.top }

/-- Adds character data; at the top level it has no place. -/
def addText (g : Growth) (s : String) : Growth :=
  match g.opened with
  | o :: others =>
    let o := match o.children with
      | t :: ts => { o with children := t.addTail s :: ts }
      | [] => { o with text := joined o.text s }
    { g with opened := o :: others }
  | [] => g

/-- Opens an element. -/
def start (g : Growth) (clark : String) (attributes : List (String × String)) : Growth :=
  { g with opened := ⟨clark, attributes, none, []⟩ :: g.opened }

/-- Closes the innermost open element. -/
def finish (g : Growth) : Growth :=
  match g.opened with
  | o :: others =>
    { g with opened := others }.add
      (.node (.element o.clark) o.attributes o.text none o.children.reverse)
  | [] => g

end Growth

end ElementTree

namespace Export

open Reading (Event Label Manner)

/-- Clark notation of a name with a namespace or none. -/
def clarkOf (space : Option String) (localPart : String) : String :=
  match space with
  | some uri => "\x7b" ++ uri ++ "\x7d" ++ localPart
  | none => localPart

/-- Clark notation of a label. -/
def clark (l : Label) : String :=
  clarkOf l.space l.localPart

/-! ### The plain form -/

/-- The manner in which the plain form reads markup. -/
def plainManner : Manner :=
  { separator := some '\x7d', replacement := .all }

/-- The plain form with one more event: comments stay inside the root only. -/
def plainStep (g : ElementTree.Growth) : Event → ElementTree.Growth
  | .start tag =>
    g.start (clark tag.name) ((tag.given ++ tag.defaulted).map fun a => (clark a.1, a.2))
  | .finish => g.finish
  | .characters cs => g.addText (String.ofList cs)
  | .comment text => if g.opened.isEmpty then g else g.add (.leaf .comment (some text))
  | _ => g

/-- The plain form of the root element of markup. -/
def plain (markup : String) : Except Unreadable (Option ElementTree) :=
  (Reading.events plainManner (.text markup)).map fun es =>
    (es.foldl plainStep {}).top.head?

/-! ### The full form -/

/-- The full form of a document. -/
structure FullTree where
  /-- The root element. -/
  root : ElementTree
  /-- The local part of the name of the root. -/
  rootName : String
  /-- The public identifier of the document type. -/
  publicId : Option String
  /-- The system identifier of the document type. -/
  systemId : Option String
  /-- Whether the document stands alone; unless it says so, one with a declaration does
  not. -/
  standalone : Option Bool
  /-- The version. -/
  version : String
  /-- The comments and instructions before the root. -/
  before : List ElementTree
  /-- Those after the root. -/
  after : List ElementTree

/-- A reader of markup into full forms; markup that it cannot take has none.  It is given
octets and told their encoding, so that it has the markup itself. -/
abbrev FullReader := String → Except Unreadable (Option FullTree)

/-- The node that is reached by going back from a node, given those before it, the nearest
first: each has the one before it, as long as there is one. -/
def goBack (t : ElementTree) : List ElementTree → ElementTree
  | [] => t
  | previous :: others => goBack previous others

/-- The first node of a full form, which is reached by going back from the root. -/
def FullTree.firstNode (t : FullTree) : ElementTree :=
  goBack t.root t.before.reverse

/-! ### A reader into the full form -/

/-- The manner in which the full form reads markup; it takes names apart by itself. -/
def fullManner : Manner :=
  { replacement := .none, isFifth := true }

/-- The severity of the latest finding about namespaces, of which only errors count in the
end. -/
inductive Finding where
  | warning
  | error
deriving DecidableEq, Repr

/-- The state of taking names apart: the namespaces in scope, those around each open
element, and the latest finding. -/
structure Scoping where
  /-- The namespaces in scope by prefix, the latest declaration first. -/
  scope : List (String × String) := [("xml", "http://www.w3.org/XML/1998/namespace")]
  /-- The scopes around the open elements, the innermost first. -/
  outside : List (List (String × String)) := []
  /-- The latest finding. -/
  latest : Option Finding := none

namespace Scoping

/-- The state after a finding. -/
def find (s : Scoping) (f : Finding) : Scoping :=
  { s with latest := some f }

/-- The namespace of a prefix. -/
def space? (s : Scoping) (p : String) : Option String :=
  nonempty? (s.scope.lookup p)

/-- The prefix and the local part of a name that has exactly one colon inside it. -/
def split (name : String) : Option String × String :=
  match name.toList.span (· ≠ ':') with
  | (p, _ :: localPart) =>
    if p ≠ [] && localPart ≠ [] then (some (String.ofList p), String.ofList localPart)
    else (none, name)
  | _ => (none, name)

/-- Whether colons stand in a name only where one divides it into two names. -/
def isDivided (name : String) : Bool :=
  match name.toList.span (· ≠ ':') with
  | (p, _ :: localPart) =>
    p ≠ [] && ':' ∉ localPart && localPart.head?.any Name.isStart
  | _ => true

/-- The state after a look at a name. -/
def look (s : Scoping) (name : String) : Scoping :=
  if isDivided name then s else s.find .error

/-- The state after a namespace is bound to a prefix, or found to be a bad one. -/
def bind (s : Scoping) (p uri : String) : Scoping :=
  let s :=
    if uri = "" then if p = "" then s else s.find .error
    else if Uri.isAbsolute uri then s
    else if Uri.isRelative uri then if p = "" then s.find .warning else s
    else s.find .error
  let isXml := uri = "http://www.w3.org/XML/1998/namespace"
  if p = "xml" then if isXml then s else s.find .error
  else if isXml || p = "xmlns" || uri = "http://www.w3.org/2000/xmlns/" then s.find .error
  else if uri = "" && p ≠ "" then s
  else { s with scope := (p, uri) :: s.scope }

/-- The prefix that an attribute declares, if it declares one. -/
def declared? (name : String) : Option String :=
  if name = "xmlns" then some ""
  else
    match split name with
    | (some "xmlns", p) => some p
    | _ => none

/-- The state after the attributes of a tag that declare namespaces. -/
def bindAll (s : Scoping) (attributes : List (Label × String)) : Scoping :=
  attributes.foldl (fun s a =>
    let s := s.look a.1.raw
    match declared? a.1.raw with
    | some p => s.bind p a.2
    | none => s) s

/-- The state after the default values of attributes that declare namespaces. -/
def bindDefaults (s : Scoping) (attributes : List (Label × String)) : Scoping :=
  attributes.foldl (fun s a =>
    match declared? a.1.raw with
    | some p => { s with scope := (p, a.2) :: s.scope }
    | none => s) s

/-- Clark notation of a name; one without a prefix is in the given namespace. -/
def resolve (s : Scoping) (space : Option String) (name : String) : Scoping × String :=
  match split name with
  | (some p, localPart) =>
    match s.space? p with
    | some uri => (s, clarkOf (some uri) localPart)
    | none => (s.find .error, name)
  | (none, localPart) => (s, clarkOf space localPart)

/-- The attributes of a tag that declare no namespaces, in Clark notation. -/
def resolveAll (s : Scoping) (attributes : List (Label × String)) :
    Scoping × List (String × String) :=
  let kept := attributes.filter fun a => (declared? a.1.raw).isNone
  let (s, found) := kept.foldl (fun (s, found) a =>
    let (s, name) := s.resolve none a.1.raw
    (s, found ++ [(name, a.2)])) (s, [])
  let names := found.map Prod.fst
  (if names.eraseDups.length < names.length then s.find .error else s, found)

/-- The name and the attributes of a start tag in Clark notation, in the scope inside it. -/
def start (s : Scoping) (tag : Reading.Tag) : Scoping × String × List (String × String) :=
  let outer := s.scope
  let s := ((s.look tag.name.raw).bindAll tag.given).bindDefaults tag.defaulted
  let (s, attributes) := s.resolveAll tag.given
  let (s, name) := s.resolve (s.space? "") tag.name.raw
  ({ s with outside := outer :: s.outside }, name, attributes)

/-- The state after an element. -/
def finish (s : Scoping) : Scoping :=
  { s with scope := s.outside.headD [], outside := s.outside.tail }

end Scoping

/-- The full form as it is being built. -/
structure FullGrowth where
  /-- The tree. -/
  growth : ElementTree.Growth := {}
  /-- The namespaces. -/
  scoping : Scoping := {}
  /-- Whether the document type is being read. -/
  inDoctype : Bool := false
  /-- The identifiers of the document type, public and system. -/
  identifiers : Option String × Option String := (none, none)
  /-- Whether the document stands alone. -/
  standalone : Option Bool := none
  /-- The version. -/
  version : String := "1.0"
  /-- Whether something was found that the full form cannot take. -/
  isRefused : Bool := false

/-- Whether a version is one that the full form takes: the first one, or a later one of the
same series. -/
def isKnownVersion (version : String) : Bool :=
  match version.toList with
  | '1' :: '.' :: rest => rest.all Char.isDigit
  | _ => false

/-- The greatest number of elements around an element in the full form. -/
def depthLimit : Nat := 256

/-- The full form with one more event. -/
def fullStep (f : FullGrowth) : Event → FullGrowth
  | .declaration version _ standalone =>
    { f with
      standalone := some (standalone = some true)
      version := version
      scoping := if version = "1.0" then f.scoping else f.scoping.find .warning
      isRefused := !isKnownVersion version }
  | .doctypeStart _ systemId publicId _ =>
    { f with inDoctype := true, identifiers := (publicId, systemId) }
  | .doctypeEnd => { f with inDoctype := false }
  | .start tag =>
    let (scoping, name, attributes) := f.scoping.start tag
    { f with
      scoping := scoping
      isRefused := f.isRefused || depthLimit < f.growth.opened.length
      growth := f.growth.start name attributes }
  | .finish => { f with scoping := f.scoping.finish, growth := f.growth.finish }
  | .characters cs => { f with growth := f.growth.addText (String.ofList cs) }
  | .comment text =>
    if f.inDoctype then f else { f with growth := f.growth.add (.leaf .comment (some text)) }
  | .instruction _ _ data =>
    if f.inDoctype then f else { f with growth := f.growth.add (.leaf .instruction (some data)) }
  | .unresolved name =>
    { f with growth := f.growth.add (.leaf .entity (some ("&" ++ name ++ ";"))) }
  | _ => f

/-- The label of a node of an element tree. -/
def labelOf : ElementTree → TreeLabel
  | .node label .. => label

/-- Whether a node of an element tree is an element. -/
def isElement (t : ElementTree) : Bool :=
  match labelOf t with
  | .element _ => true
  | _ => false

/-- The full form of markup; a namespace that is found to be wrong makes it fail, unless
only a warning follows. -/
def full : FullReader := fun markup => do
  let es ← Reading.events fullManner (.text markup)
  let f := es.foldl fullStep {}
  let top := f.growth.top.reverse
  let before := top.takeWhile fun t => !isElement t
  match top.dropWhile fun t => !isElement t with
  | root :: after =>
    let name := match labelOf root with
      | .element name => name
      | _ => ""
    let rootName := ((QName.ofClark? name).map QName.localPart).getD ""
    if f.isRefused || f.scoping.latest = some .error then .ok none
    else
      .ok (some ⟨root, rootName, f.identifiers.1, f.identifiers.2, f.standalone, f.version,
        before, after⟩)
  | [] => .ok none

end Export

end XmlDraft
