import XmlDraft.Building.Member
import XmlDraft.Building.View

/-!
# Sessions

Running steps against a builder.  A call builds an element and runs its fragment inside it;
the element is closed again however the fragment ends, and a failure goes up through all
calls around it, up to steps that may fail without ending the others.
-/

namespace XmlDraft

/-- What a step reports. -/
inductive Entry where
  /-- Whether the builder has a member of a name. -/
  | has (found : Bool)
  /-- What a view shows. -/
  | view (name : String) (r : Except Fault Shown)
  /-- The number of open elements. -/
  | depth (n : Nat)
  /-- A failure that did not end the steps after it. -/
  | fault (f : Fault)
  /-- The number of arguments of the fragment, and whether the first is the builder. -/
  | arguments (count : Nat) (first : Bool)

/-- The arguments that a fragment was called with. -/
structure Frame where
  /-- The number of parameters that must be given by position. -/
  count : Nat
  /-- Whether the first of them is the builder. -/
  first : Bool

/-- The state of a session: the builder, and what steps have reported, the latest first. -/
structure Run where
  /-- The builder. -/
  builder : Builder
  /-- What steps have reported. -/
  entries : List Entry := []

/-- How a step or several steps end. -/
abbrev Outcome := Run × Except Fault Unit

namespace Run

/-- The state with one more report. -/
def report (r : Run) (e : Entry) : Run :=
  { r with entries := e :: r.entries }

/-- The state after a change of the builder that may fail. -/
def change (r : Run) (b : Except Fault Builder) : Outcome :=
  match b with
  | .ok b => ({ r with builder := b }, .ok ())
  | .error f => (r, .error f)

/-- The state after an operation other than a tag, with its arguments in their places. -/
def operate (r : Run) (o : Operation) (values : List Value) : Outcome :=
  let b := r.builder
  match o, values with
  | .comment, [v] => r.change (b.addComment v)
  | .cdata, [v] => r.change (b.addCData v)
  | .text, [v] => r.change (b.addText v)
  | .declaration, [version, encoding, standalone] =>
    r.change (.ok (b.setDeclaration version encoding standalone))
  | .doctype, [name, publicId, systemId, subset] =>
    r.change (b.addDoctype name publicId systemId subset)
  | _, _ => (r, .error .badCall)

/-- The state inside a new element, if it has a fragment. -/
def enter (r : Run) (place : Place) : Except Fault Run :=
  (r.builder.draft.push place).map fun d => { r with builder.draft := d }

/-- The state outside the innermost open element again. -/
def leave (r : Run) : Run :=
  match r.builder.draft.pop with
  | .ok d => { r with builder.draft := d }
  | .error _ => r

/-- The name under which a view is asked for. -/
def viewOf? (name : String) : Option View :=
  [("string", View.markup false), ("indented", .markup true), ("str", .markup false),
    ("bytes", .octets false), ("dunder_bytes", .octets false), ("bytes_indented", .octets true),
    ("encoding", .encoding), ("repr", .shown), ("document", .document), ("element", .root),
    ("node", .firstNode), ("paths", .paths), ("texts", .texts), ("etree", .plainTree),
    ("etree_element", .plainTree), ("lxml", .fullTree), ("lxml_element", .fullRoot),
    ("lxml_node", .fullFirstNode), ("minidom", .objectModel),
    ("minidom_node", .modelFirstNode), ("minidom_element", .modelRoot)].lookup name

/-- What a view of a name shows, and the state after it. -/
def look (r : Run) (name : String) : Run × Except Fault Shown :=
  match viewOf? name with
  | some v =>
    let (b, shown) := r.builder.view v
    ({ r with builder := b }, shown)
  | none => (r, .error .noAttribute)

/-- The arguments that a fragment sees: how many of its parameters must be given by
position, and whether the builder is the first of them. -/
def frameOf (ps : List Parameter) (given : Nat) (takesBuilder : Bool) : Frame :=
  let count := ps.countP Parameter.isNeeded
  ⟨count, takesBuilder && given = 0 && 0 < count⟩

/-- How a function of the surroundings ends when it is called with the builder or with
nothing. -/
def callBuiltin (name : String) (takesBuilder : Bool) : Except Fault Unit :=
  if name = "dir" || (name = "repr" && takesBuilder) then .ok ()
  else if name = "len" && takesBuilder then .error .wrongKind
  else .error .badCall

mutual

/-- Runs a step; `frame` holds the arguments of the fragment that it stands in. -/
def step (r : Run) (frame : Option Frame) : Step → Outcome
  | .call name arguments named =>
    let build := fun (v : Value) (arguments : List Value) =>
      r.builder.startElement v arguments named
    let started :=
      match Member.ofName name with
      | .element => some (build (.str name) arguments)
      | .encoding =>
        if r.builder.encoding.toOption.isNone then some (build (.str name) arguments) else none
      | .operation .tag =>
        match arguments with
        | v :: rest => some (build v rest)
        | [] => none
      | _ => none
    match started with
    | some (b, .error f) => ({ r with builder := b }, .error f)
    | some (b, .ok (_, .nothing)) => ({ r with builder := b }, .ok ())
    | some (b, .ok (_, .failure f)) => ({ r with builder := b }, .error f)
    | some (b, .ok (place, .fragment takesBuilder)) =>
      match enter { r with builder := b } place with
      | .error f => ({ r with builder := b }, .error f)
      | .ok inner =>
        let (after, outcome) := runLast inner takesBuilder arguments
        (after.leave, outcome)
    | none =>
      match Member.ofName name with
      | .operation o =>
        match o.bind arguments named with
        | .ok values => r.operate o values
        | .error f => (r, .error f)
      | .absent => (r, .error .noAttribute)
      | _ => (r, .error .badCall)
  | .has name => (r.report (.has (Member.ofName name ≠ .absent)), .ok ())
  | .view name =>
    let (r, shown) := r.look name
    (r.report (.view name shown), .ok ())
  | .depth => (r.report (.depth r.builder.draft.depth), .ok ())
  | .attempt steps => (attempt r frame steps, .ok ())
  | .raise message => (r, .error (.raised message))
  | .interrupt => (r, .error .interrupted)
  | .arguments =>
    match frame with
    | some f => (r.report (.arguments f.count f.first), .ok ())
    | none => (r, .ok ())

/-- Runs steps one after another up to the first one that fails. -/
def steps (r : Run) (frame : Option Frame) : List Step → Outcome
  | [] => (r, .ok ())
  | s :: ss =>
    match step r frame s with
    | (r, .ok _) => steps r frame ss
    | (r, .error f) => (r, .error f)

/-- Runs steps each of which may fail; a failure is reported. -/
def attempt (r : Run) (frame : Option Frame) : List Step → Run
  | [] => r
  | s :: ss =>
    match step r frame s with
    | (r, .ok _) => attempt r frame ss
    | (r, .error f) => attempt (r.report (.fault f)) frame ss

/-- Runs the last fragment among the arguments of a call. -/
def runLast (r : Run) (takesBuilder : Bool) : List Value → Outcome
  | [] => (r, .ok ())
  | v :: vs => if vs.any Value.isFragment then runLast r takesBuilder vs else invoke r takesBuilder v

/-- Calls a value with the builder or with nothing. -/
def invoke (r : Run) (takesBuilder : Bool) : Value → Outcome
  | .function ps body =>
    if Signature.binds ps (if takesBuilder then 1 else 0) then
      steps r (some (frameOf ps 0 takesBuilder)) body
    else (r, .error .badCall)
  | .bound ps given body =>
    if Signature.binds ps (given + if takesBuilder then 1 else 0) then
      steps r (some (frameOf ps given takesBuilder)) body
    else (r, .error .badCall)
  | .callable ps _ body _ =>
    if Signature.binds ps (if takesBuilder then 1 else 0) then
      steps r (some (frameOf ps 0 takesBuilder)) body
    else (r, .error .badCall)
  | .builtin name => (r, callBuiltin name takesBuilder)
  | _ => (r, .error .badCall)

end

end Run

/-- What became of a step of a session: how it ended, what it reported, in order, and the
markup after it, if it could be written. -/
structure StepResult where
  /-- How the step ended. -/
  outcome : Except Fault Unit
  /-- What it reported. -/
  entries : List Entry
  /-- The markup after it. -/
  state : Option String

namespace Builder

/-- Runs a step of a session and writes the markup after it, which is recorded. -/
def runStep (b : Builder) (s : Step) : Builder × StepResult :=
  let (r, outcome) := Run.step ⟨b, []⟩ none s
  let (b, text) := r.builder.render false
  (b, ⟨outcome, r.entries.reverse, text.toOption⟩)

/-- Runs the steps of a session, each of which may fail. -/
def runSteps (b : Builder) : List Step → Builder × List StepResult
  | [] => (b, [])
  | s :: ss =>
    let (b, result) := b.runStep s
    let (b, results) := b.runSteps ss
    (b, result :: results)

/-- What several views show, one after another. -/
def views (b : Builder) : List String → Builder × List (Except Fault Shown)
  | [] => (b, [])
  | name :: names =>
    let (r, shown) := Run.look ⟨b, []⟩ name
    let (b, others) := r.builder.views names
    (b, shown :: others)

end Builder

end XmlDraft
