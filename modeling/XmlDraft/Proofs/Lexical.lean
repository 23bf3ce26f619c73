import XmlDraft.Building.Session
import XmlDraft.Proofs.Place

/-!
# Steps by their nesting

What steps do to a document, said by recursion on the steps alone and without any open
elements: a step stands at a site, either at the top of the document or directly in the
fragment of a call, and what it adds goes to the end of the children there.  The fragment of a
call runs on the children of the new element, which becomes the last child around it.  The
depth of a site is the number of fragments that are running around it.
-/

namespace XmlDraft

/-- What stands around the children that steps add to: the settings, the number of fragments
that are running, and the nodes at the top level of the document, given those children. -/
structure Site where
  /-- The settings of the builder. -/
  settings : Settings
  /-- The number of fragments that are running. -/
  depth : Nat := 0
  /-- The nodes at the top level, given the children at the site. -/
  around : List Node → List Node := id

/-- What steps at a site change: the children there, the declaration, the records, and what
steps have reported, the latest first. -/
structure Sheet where
  /-- The declaration of the document. -/
  declaration : Option Declaration := none
  /-- The children at the site. -/
  children : List Node := []
  /-- The records, the latest first. -/
  records : List Log.Record := []
  /-- What steps have reported, the latest first. -/
  entries : List Entry := []

namespace Sheet

/-- The sheet with one more report. -/
def report (h : Sheet) (e : Entry) : Sheet :=
  { h with entries := e :: h.entries }

/-- The sheet after a change that may fail. -/
def change (h : Sheet) (r : Except Fault Sheet) : Sheet × Except Fault Unit :=
  match r with
  | .ok h => (h, .ok ())
  | .error f => (h, .error f)

end Sheet

/-- The element that a call builds, if it builds one: the value that names it, and the
arguments that fill it. -/
def Builder.elementCall? (b : Builder) (name : String) (arguments : List Value) :
    Option (Value × List Value) :=
  match Member.ofName name with
  | .element => some (.str name, arguments)
  | .encoding => if b.encoding.toOption.isNone then some (.str name, arguments) else none
  | .operation .tag =>
    match arguments with
    | v :: rest => some (v, rest)
    | [] => none
  | _ => none

/-- The document type that the arguments of its operation give. -/
def Builder.doctypeOf (settings : Settings) (name publicId systemId subset : Value) :
    Except Fault Doctype := do
  let name ← name.requireText "name"
  if settings.checkNames.counts then
    let _ ← Name.check name "name"
  .ok ⟨name.text, fieldOf publicId, fieldOf systemId, fieldOf subset⟩

namespace Site

/-- The site directly in the fragment of a new element behind given nodes. -/
def inside (s : Site) (before : List Node) (element : Node) : Site :=
  { s with
    depth := s.depth + 1
    around := fun children => s.around (before ++ [element.withChildren children]) }

/-- The document around a site. -/
def document (s : Site) (h : Sheet) : Document :=
  ⟨h.declaration, s.around h.children⟩

/-- A builder of the document around a site, with no element open. -/
def builder (s : Site) (h : Sheet) : Builder :=
  ⟨s.settings, ⟨s.document h, []⟩, h.records⟩

/-! ### Adding nodes -/

/-- Why a node may not be added, if it may not; only the top level has rules for that. -/
def misplacement? (s : Site) (h : Sheet) (n : Node) : Option Misplacement :=
  if s.depth = 0 then (s.document h).misplacement? n else none

/-- Adds a node behind the children at a site. -/
def add (s : Site) (h : Sheet) (n : Node) : Except Fault Sheet :=
  match s.misplacement? h n with
  | some m => .error (.misplaced m)
  | none => .ok { h with children := h.children ++ [n] }

/-- Adds a document type, which has no place in a fragment: there the root has begun. -/
def addDoctype (s : Site) (h : Sheet) (d : Doctype) : Except Fault Sheet :=
  if s.depth = 0 then s.add h (.doctype d)
  else if (s.document h).doctype?.isSome then .error (.misplaced .secondDoctype)
  else .error (.misplaced .lateDoctype)

/-- An operation other than a tag, with its arguments in their places. -/
def operate (s : Site) (h : Sheet) (o : Operation) (values : List Value) :
    Sheet × Except Fault Unit :=
  match o, values with
  | .comment, [v] => h.change do
    let t ← v.requireText "text"
    let n ← Builder.commentOf t
    s.add h n
  | .cdata, [v] => h.change do
    let t ← v.requireText "text"
    s.add h (.cdata t.text)
  | .text, [v] => h.change do
    let t ← v.requireText "text"
    s.add h (.text t.text)
  | .declaration, [version, encoding, standalone] =>
    let d : Declaration :=
      ⟨Builder.fieldOf version, Builder.fieldOf encoding, Builder.standaloneOf standalone⟩
    ({ h with declaration := some d }, .ok ())
  | .doctype, [name, publicId, systemId, subset] => h.change do
    let d ← Builder.doctypeOf s.settings name publicId systemId subset
    s.addDoctype h d
  | _, _ => (h, .error .badCall)

/-- A call that builds no element. -/
def operateNamed (s : Site) (h : Sheet) (name : String) (arguments : List Value)
    (named : List (String × Value)) : Sheet × Except Fault Unit :=
  match Member.ofName name with
  | .operation o =>
    match o.bind arguments named with
    | .ok values => s.operate h o values
    | .error f => (h, .error f)
  | .absent => (h, .error .noAttribute)
  | _ => (h, .error .badCall)

/-- The new element of a tag with its text and its attributes, and what is to be done once it is
added, which it is not yet. -/
def startElement (s : Site) (h : Sheet) (v : Value) (given : List Value)
    (named : List (String × Value)) : Sheet × Except Fault (Node × Builder.Sequel) :=
  match Builder.tagName s.settings v with
  | .error f => (h, .error f)
  | .ok name =>
    let h := { h with records := ((s.builder h).warn (Arguments.warnings given)).records }
    match Builder.elementOf s.settings name given named with
    | .error f => (h, .error f)
    | .ok (element, sequel) =>
      match s.misplacement? h element with
      | some m => (h, .error (.misplaced m))
      | none =>
        let record := (s.builder h).source.record .debug "Created element"
          [("tag", .str name.text), ("depth", .int s.depth)]
        ({ h with records := record :: h.records }, .ok (element, sequel))

/-! ### Steps -/

mutual

/-- Runs a step at a site; `frame` holds the arguments of the fragment that it stands in. -/
def step (s : Site) (h : Sheet) (frame : Option Frame) : Step → Sheet × Except Fault Unit
  | .call name arguments named =>
    match (s.builder h).elementCall? name arguments with
    | some (v, given) =>
      match s.startElement h v given named with
      | (h, .error f) => (h, .error f)
      | (h, .ok (element, .nothing)) => ({ h with children := h.children ++ [element] }, .ok ())
      | (h, .ok (element, .failure f)) => ({ h with children := h.children ++ [element] }, .error f)
      | (h, .ok (element, .fragment takesBuilder)) =>
        let (inner, outcome) :=
          runLast (s.inside h.children element) { h with children := element.children }
            takesBuilder arguments
        ({ inner with children := h.children ++ [element.withChildren inner.children] }, outcome)
    | none => s.operateNamed h name arguments named
  | .has name => (h.report (.has (Member.ofName name ≠ .absent)), .ok ())
  | .view name =>
    let (r, shown) := Run.look ⟨s.builder h, []⟩ name
    ({ h with records := r.builder.records }.report (.view name shown), .ok ())
  | .depth => (h.report (.depth s.depth), .ok ())
  | .attempt steps => (attempt s h frame steps, .ok ())
  | .raise message => (h, .error (.raised message))
  | .interrupt => (h, .error .interrupted)
  | .arguments =>
    match frame with
    | some f => (h.report (.arguments f.count f.first), .ok ())
    | none => (h, .ok ())

/-- Runs steps one after another up to the first one that fails. -/
def steps (s : Site) (h : Sheet) (frame : Option Frame) : List Step → Sheet × Except Fault Unit
  | [] => (h, .ok ())
  | p :: ps =>
    match step s h frame p with
    | (h, .ok _) => steps s h frame ps
    | (h, .error f) => (h, .error f)

/-- Runs steps each of which may fail; a failure is reported. -/
def attempt (s : Site) (h : Sheet) (frame : Option Frame) : List Step → Sheet
  | [] => h
  | p :: ps =>
    match step s h frame p with
    | (h, .ok _) => attempt s h frame ps
    | (h, .error f) => attempt s (h.report (.fault f)) frame ps

/-- Runs the last fragment among the arguments of a call. -/
def runLast (s : Site) (h : Sheet) (takesBuilder : Bool) : List Value → Sheet × Except Fault Unit
  | [] => (h, .ok ())
  | v :: vs =>
    if vs.any Value.isFragment then runLast s h takesBuilder vs else invoke s h takesBuilder v

/-- Calls a value with the builder or with nothing. -/
def invoke (s : Site) (h : Sheet) (takesBuilder : Bool) : Value → Sheet × Except Fault Unit
  | .function ps body =>
    if Signature.binds ps (if takesBuilder then 1 else 0) then
      steps s h (some (Run.frameOf ps 0 takesBuilder)) body
    else (h, .error .badCall)
  | .bound ps given body =>
    if Signature.binds ps (given + if takesBuilder then 1 else 0) then
      steps s h (some (Run.frameOf ps given takesBuilder)) body
    else (h, .error .badCall)
  | .callable ps _ body _ =>
    if Signature.binds ps (if takesBuilder then 1 else 0) then
      steps s h (some (Run.frameOf ps 0 takesBuilder)) body
    else (h, .error .badCall)
  | .builtin name => (h, Run.callBuiltin name takesBuilder)
  | _ => (h, .error .badCall)

end

/-! ### Sessions -/

/-- Runs the steps of a session at a site, each of which may fail, and writes the markup after
each of them, which is recorded. -/
def session (s : Site) (h : Sheet) : List Step → Sheet × List StepResult
  | [] => (h, [])
  | p :: ps =>
    let (after, outcome) := s.step { h with entries := [] } none p
    let (b, text) := (s.builder after).render false
    let (last, results) := session s { after with records := b.records } ps
    (last, ⟨outcome, after.entries.reverse, text.toOption⟩ :: results)

end Site

end XmlDraft
