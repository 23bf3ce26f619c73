import XmlDraft.Building.Attributes
import XmlDraft.Building.Draft
import XmlDraft.Settings.Basic
import XmlDraft.Log

/-!
# Builders

A builder owns a draft, settings, and the records of what it did.  Its operations check
their arguments before they change anything: an operation that fails there leaves the
document as it was.  A new element is attached first and gets its text and its attributes
then, so that an attribute that cannot be set leaves it in the document with those before.
-/

namespace XmlDraft

/-- A builder of one document. -/
structure Builder where
  /-- The settings. -/
  settings : Settings := {}
  /-- The draft. -/
  draft : Draft := {}
  /-- The records, the latest first. -/
  records : List Log.Record := []

namespace Builder

/-- A builder of an existing document, to which new nodes are added at the top level. -/
def ofDocument (d : Document) (settings : Settings) (records : List Log.Record) : Builder :=
  ⟨settings, ⟨d, []⟩, records⟩

/-- The source of the records of the operations. -/
def source (b : Builder) : Log.Source :=
  .of "builder.engine" (some "engine") b.settings.correlation

/-- The builder with one more record. -/
def note (b : Builder) (r : Log.Record) : Builder :=
  { b with records := r :: b.records }

/-- The warning about a value that takes more arguments than a fragment may. -/
def warning (source : Log.Source) (mention : String) : Log.Record :=
  source.record .warning "Callable takes more than one argument, using it as an attribute bag"
    [("callable", .str mention)]

/-- The builder with a warning about each of some values. -/
def warn (b : Builder) (mentions : List String) : Builder :=
  mentions.foldl (fun b m => b.note (warning b.source m)) b

/-! ### Names of tags -/

/-- A text without the mark at its head, if it begins with it.  A mark that is no text
cannot be looked for. -/
def withoutMark (mark : Json) (name : Wording) : Except Fault Wording :=
  match mark with
  | .str m =>
    if m.toList.isPrefixOf name.text.toList then .ok (String.ofList (name.text.toList.drop 1))
    else .ok name
  | _ => .error .wrongKind

/-- The name of a tag that a value gives: without the mark that escapes it, not empty, and
checked if need be. -/
def tagName (settings : Settings) (v : Value) : Except Fault Wording := do
  let text ← v.requireText "name"
  let name ← withoutMark settings.escapeMark text
  if name.text = "" then .error (.misuse .onlyEscape)
  else if settings.checkNames.counts then Name.check name "name"
  else .ok name

/-! ### Operations -/

/-- The new element of a tag: its content, and the attributes that can be set, one of which
may be its namespace. -/
def newElement (name : QName) (content : Option String) (prepared : Prepared) : Node :=
  let (name, attributes) := prepared.apply name []
  .element name attributes (((nonempty? content).map Node.text).toList)

/-- What is to be done once a new element is attached. -/
inductive Sequel where
  | nothing
  /-- A fragment is to be run inside it, which may take the builder. -/
  | fragment (takesBuilder : Bool)
  /-- An attribute could not be set. -/
  | failure (f : Fault)

/-- What is to be done after attributes were copied to a new element with or without a
fragment. -/
def Sequel.of (copied : Except Fault Unit) (fragment : Option Bool) : Sequel :=
  match copied, fragment with
  | .error f, _ => failure f
  | .ok _, some takesBuilder => .fragment takesBuilder
  | .ok _, none => nothing

/-- What becomes of a new element, as far as it can be worked out from the arguments of a
call alone, and what is to be done once it is attached. -/
def elementOf (settings : Settings) (name : Wording) (arguments : List Value)
    (named : List (String × Value)) : Except Fault (Node × Sequel) := do
  let classified ← Arguments.classify arguments named
  let prepared ← Prepared.ofFields settings.checkNames.counts (classified.attributes.getD [])
  match QName.of? name.text none name.member with
  | none => .error .emptyLocalPart
  | some q =>
    .ok (newElement q classified.content prepared,
      .of (prepared.copy q []).2 classified.fragment)

/-- The builder with a new element, the place of the element, and what is to be done
then. -/
def startElement (b : Builder) (v : Value) (arguments : List Value)
    (named : List (String × Value)) : Builder × Except Fault (Place × Sequel) :=
  match tagName b.settings v with
  | .error f => (b, .error f)
  | .ok name =>
    let b := b.warn (Arguments.warnings arguments)
    match elementOf b.settings name arguments named with
    | .error f => (b, .error f)
    | .ok (element, sequel) =>
      match b.draft.append element with
      | .error f => (b, .error f)
      | .ok draft =>
        let record := b.source.record .debug "Created element"
          [("tag", .str name.text), ("depth", .int b.draft.depth)]
        (({ b with draft := draft }).note record, .ok (b.draft.nextPlace, sequel))

/-- A comment of a text that does not break it. -/
def commentOf (w : Wording) : Except Fault Node :=
  if breaksComment w.text.toList then .error (.misuse .commentDashes) else .ok (.comment w)

/-- The builder with one more node at the current place. -/
def addNode (b : Builder) (n : Node) : Except Fault Builder :=
  (b.draft.append n).map fun d => { b with draft := d }

/-- Adds a comment. -/
def addComment (b : Builder) (v : Value) : Except Fault Builder := do
  let s ← v.requireText "text"
  let n ← commentOf s
  b.addNode n

/-- Adds a CDATA section. -/
def addCData (b : Builder) (v : Value) : Except Fault Builder := do
  let s ← v.requireText "text"
  b.addNode (.cdata s.text)

/-- Adds character data. -/
def addText (b : Builder) (v : Value) : Except Fault Builder := do
  let s ← v.requireText "text"
  b.addNode (.text s.text)

/-- Whether a value counts as empty: zero, an empty text, or an empty container. -/
def isEmptyValue (v : Value) : Bool :=
  match v with
  | .none => true
  | .list items => items.isEmpty
  | .tuple items => items.isEmpty
  | .mapping items => items.isEmpty
  | .row fields => fields.isEmpty
  | .octets os => os.isEmpty
  | .span s => s.micros = 0
  | .member .flags _ (.int n) => n = 0
  | .complex re im => Json.isZero re && Json.isZero im
  | v =>
    match v.number? with
    | some (.finite n _) => n = 0
    | _ => false

/-- The field that a value stands for. -/
def fieldOf (v : Value) : Option Field :=
  match v with
  | .none => none
  | .bool b => some (.flag b)
  | .int n => some (.whole n)
  | v =>
    match v.wording? with
    | some ⟨s, none⟩ => some (.text s)
    | some ⟨s, some printed⟩ => some (.member s printed)
    | none => some (.other v.printed.toOption (isEmptyValue v))

/-- The words for a document that stands alone or not; a truth value gives one of them. -/
def standaloneOf (v : Value) : Option Field :=
  match v with
  | .bool b => some (.text (if b then "yes" else "no"))
  | v => fieldOf v

/-- Sets the declaration in place of any earlier one. -/
def setDeclaration (b : Builder) (version encoding standalone : Value) : Builder :=
  let d : Declaration := ⟨fieldOf version, fieldOf encoding, standaloneOf standalone⟩
  { b with draft.document.declaration := some d }

/-- Adds a document type at the top level. -/
def addDoctype (b : Builder) (name publicId systemId subset : Value) : Except Fault Builder := do
  let name ← name.requireText "name"
  if b.settings.checkNames.counts then
    let _ ← Name.check name "name"
  let d : Doctype := ⟨name.text, fieldOf publicId, fieldOf systemId, fieldOf subset⟩
  let document ← (b.draft.document.append (.doctype d)).mapError Fault.misplaced
  .ok { b with draft.document := document }

/-! ### Writing -/

/-- The layout that a section stands for in writing: data that counts as nothing stands
for the default one, and other data has no fields. -/
def layoutOf : LayoutSection → Except Fault Layout
  | .checked l => .ok l
  | .loose d => if d.counts then .error .noAttribute else .ok {}

/-- The source of the records of writing. -/
def writerSource (correlation : Json) : Log.Source :=
  .of "serialization.writer" (some "writer") correlation

/-- The markup of a document, and the record of its writing. -/
def written (layout : LayoutSection) (correlation : Json) (d : Document) (indented : Bool) :
    Except Fault (String × Log.Record) := do
  let layout ← layoutOf layout
  let text ← (d.render layout indented).mapError Fault.ofRender
  let encoding ← (OutputEncoding.select d.declaration).mapError Fault.ofRender
  .ok (text, (writerSource correlation).record .debug "Rendered document"
    [("indent", .bool indented), ("length", .int text.length), ("encoding", .str encoding.name)])

/-- The markup of the document; writing it is recorded. -/
def render (b : Builder) (indented : Bool) : Builder × Except Fault String :=
  match written b.settings.layout b.settings.correlation b.draft.document indented with
  | .ok (text, record) => (b.note record, .ok text)
  | .error f => (b, .error f)

/-- The encoding of the document. -/
def encoding (b : Builder) : Except Fault OutputEncoding :=
  (OutputEncoding.select b.draft.document.declaration).mapError Fault.ofRender

/-- The octets of the document; writing it is recorded. -/
def renderOctets (b : Builder) (indented : Bool) : Builder × Except Fault (List UInt8) :=
  match b.encoding with
  | .error f => (b, .error f)
  | .ok encoding =>
    let (b, text) := b.render indented
    (b, text.map fun s => encoding.encode s.toList)

/-- The form in which a builder shows itself: the Clark notation of the root element,
which is the local part itself where there is no namespace. -/
def shown (b : Builder) : String :=
  let root := b.draft.document.root?.bind Node.name?
  let tag := fun (q : QName) =>
    (if (nonempty? q.space).isSome then q.clark else ⟨q.clark, q.member⟩ : Wording)
  "<Xml root=" ++ ((root.map fun q => (tag q).shown).getD "None") ++ ">"

end Builder

end XmlDraft
