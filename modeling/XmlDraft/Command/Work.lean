import XmlDraft.Building.Callback
import XmlDraft.Building.Loading
import XmlDraft.Settings.Data
import XmlDraft.Text.Lines
import XmlDraft.Command.Failure
import XmlDraft.Command.Request

/-!
# Work

The work of a task in two halves.  Preparing reads files and gives a builder; delivering writes
what the builder has built.  Only the second half changes files.
-/

namespace XmlDraft

namespace Command

/-- What a program meets: files, and building functions by name. -/
structure Surroundings where
  /-- The files. -/
  storage : Storage
  /-- The building functions. -/
  catalogue : Catalogue := {}

/-- What the first half of a task gives. -/
structure Prepared where
  /-- The level from which records are shown, once it has been set. -/
  threshold : Option Log.Level := none
  /-- The records, the latest first. -/
  records : List Log.Record := []
  /-- The builder. -/
  outcome : Except Failure Builder

/-- What the second half of a task gives. -/
inductive Product where
  /-- A text for the standard output. -/
  | printed (text : String)
  /-- A file in an encoding. -/
  | written (p : FilePath) (encoding : OutputEncoding)

/-- The end of the second half of a task. -/
structure Delivered where
  /-- The files. -/
  storage : Storage
  /-- The records, the latest first. -/
  records : List Log.Record
  /-- The product. -/
  outcome : Except Failure Product

/-! ### Preparing -/

/-- The settings in a file. -/
def settingsIn (s : Storage) (p : FilePath) : Except Failure Settings := do
  let octets ← (s.read p).mapError .storage
  let cs ← (Text.decodeUtf8 octets).mapError .undecodable
  (Settings.ofText (String.ofList (Text.unifyLines cs))).mapError fun f => .fault (.settings f)

/-- The settings of a task: those in a file, if one is named, with another end of lines, if it
is asked for. -/
def settingsFor (s : Storage) (o : Options) : Except Failure Settings := do
  let settings ← match o.config with
    | some name => settingsIn s (.ofText name)
    | none => pure {}
  if o.unixNewlines then
    (settings.override [("serialization__newline", .str "\n")]).mapError
      fun f => .fault (.settings f)
  else .ok settings

/-- The level from which records are shown. -/
def thresholdOf (o : Options) (settings : Settings) : Except Failure Log.Level :=
  if o.verbose then .ok .debug
  else if o.quiet then .ok .error
  else
    match Log.levelOf? settings.loggingLevel with
    | some level => .ok level
    | none => .error (.fault .unknownLevel)

namespace Task

/-- The word for a task. -/
def name : Task → String
  | render _ => "render"
  | format _ => "format"

/-- The builder that a task makes, and the records of making it, the latest first. -/
def builder (w : Surroundings) (settings : Settings) :
    Task → List Log.Record × Except Failure Builder
  | render target =>
    match w.catalogue.find target with
    | .error f => ([], .error (.target f))
    | .ok callback =>
      let (b, outcome) := Builder.build callback settings
      (b.records, (outcome.map fun _ => b).mapError .fault)
  | format name =>
    match w.storage.read (.ofText name) with
    | .error f => ([], .error (.storage f))
    | .ok octets =>
      let (records, outcome) := Builder.ofSource settings (.octets octets)
      (records, outcome.mapError .fault)

/-- The first half of a task. -/
def prepare (w : Surroundings) (o : Options) (t : Task) : Prepared :=
  let setting := do
    let settings ← settingsFor w.storage o
    let level ← thresholdOf o settings
    .ok (settings, level)
  match setting with
  | .error f => { outcome := .error f }
  | .ok (settings, level) =>
    let (records, outcome) := t.builder w settings
    ⟨some level, records, outcome⟩

end Task

/-! ### Delivering -/

/-- The second half of a task: the markup is printed, or written into a file, whose folder is
made if it is not there. -/
def deliver (s : Storage) (o : Options) (b : Builder) : Delivered :=
  match o.output with
  | none =>
    let (b, text) := b.render o.indent
    ⟨s, b.records, (text.map .printed).mapError .fault⟩
  | some name =>
    let p := FilePath.ofText name
    match s.makeFolders p.parent with
    | (s, .error f) => ⟨s, b.records, .error (.storage f)⟩
    | (s, .ok _) =>
      match b.renderOctets o.indent with
      | (b, .error f) => ⟨s, b.records, .error (.fault f)⟩
      | (b, .ok octets) =>
        match s.write p octets with
        | .error f => ⟨s, b.records, .error (.storage f)⟩
        | .ok s => ⟨s, b.records, (b.encoding.map (.written p)).mapError .fault⟩

end Command

end XmlDraft
