import XmlDraft.Command.Work

/-!
# Reports

What a command line comes to: what is printed, what is noticed, the files, and how the program
ends.  A failure that is reported makes the status one, and an interruption has a status of its
own; any other failure ends the program before it has a status.
-/

namespace XmlDraft

namespace Command

/-- A notice on the standard error output. -/
inductive Notice where
  /-- A record of the log. -/
  | record (r : Log.Record)
  /-- A text, with its end of line. -/
  | text (s : String)

/-- How the program ends. -/
inductive Ending where
  /-- With a status. -/
  | status (n : Nat)
  /-- With a status, for the command line asks for no work. -/
  | left (n : Nat)
  /-- By a failure that is not reported. -/
  | failed (f : Failure)

/-- What a command line comes to. -/
structure Report where
  /-- The text on the standard output. -/
  output : String := ""
  /-- The notices, in order. -/
  notices : List Notice := []
  /-- The files. -/
  storage : Storage
  /-- The end of the program. -/
  ending : Ending

namespace Report

/-- The line of a record, behind the time at which it is shown. -/
def line (r : Log.Record) : String :=
  " " ++ r.level.name ++ " " ++ r.logger ++ ": " ++ r.message ++ "\n"

/-- The notices of records, the latest first, from a level on, in order. -/
def shown (threshold : Option Log.Level) (records : List Log.Record) : List Notice :=
  match threshold with
  | some level => (Log.passing level records.reverse).map .record
  | none => []

/-- The record of a task that failed. -/
def failureRecord (t : Task) : Log.Record :=
  (Log.Source.of "cli.main" (some "cli") .null).record .debug "Command failed"
    [("command", .str t.name)]

/-- The report of a task that failed, after records of which the latest is first. -/
def ofFailure (s : Storage) (t : Task) (threshold : Option Log.Level)
    (records : List Log.Record) (f : Failure) : Report :=
  let before := shown threshold records
  match f with
  | .fault .interrupted =>
    { notices := before ++ [.text "\nOperation interrupted by user\n"], storage := s,
      ending := .status 130 }
  | f =>
    if f.isReported then
      { notices := shown threshold (failureRecord t :: records)
          ++ [.text ("Error: " ++ f.message ++ "\n")],
        storage := s, ending := .status 1 }
    else { notices := before, storage := s, ending := .failed f }

/-- The report of a product, after records of which the latest is first. -/
def ofProduct (s : Storage) (threshold : Option Log.Level) (records : List Log.Record) :
    Product → Report
  | .printed text =>
    { output := text ++ "\n", notices := shown threshold records, storage := s,
      ending := .status 0 }
  | .written p encoding =>
    let notice := "Written " ++ p.text ++ " (" ++ encoding.name ++ ")\n"
    { notices := shown threshold records ++ [.text notice], storage := s, ending := .status 0 }

end Report

namespace Task

/-- The file that a task reads, if it is not there. -/
def missing? (s : Storage) : Task → Except Failure (Option FilePath)
  | render _ => .ok none
  | format name => do
    let p := FilePath.ofText name
    let held ← (s.holds p).mapError .storage
    .ok (if held then none else some p)

/-- The report of a task.  A document that is not there is told before anything else is done. -/
def run (w : Surroundings) (o : Options) (t : Task) : Report :=
  match t.missing? w.storage with
  | .error f => .ofFailure w.storage t none [] f
  | .ok (some p) =>
    { notices := [.text ("File not found: " ++ p.text ++ "\n")], storage := w.storage,
      ending := .status 1 }
  | .ok none =>
    let prepared := t.prepare w o
    match prepared.outcome with
    | .error f => .ofFailure w.storage t prepared.threshold prepared.records f
    | .ok b =>
      let delivered := deliver w.storage o b
      match delivered.outcome with
      | .error f => .ofFailure delivered.storage t prepared.threshold delivered.records f
      | .ok product => .ofProduct delivered.storage prepared.threshold delivered.records product

end Task

namespace Request

/-- The report of a request. -/
def run (w : Surroundings) : Request → Report
  | help => { output := usage, storage := w.storage, ending := .left 0 }
  | version => { output := versionText ++ "\n", storage := w.storage, ending := .left 0 }
  | refused => { notices := [.text usage], storage := w.storage, ending := .left 2 }
  | nothing => { output := usage, storage := w.storage, ending := .status 1 }
  | task t o => t.run w o

end Request

/-- The report of a command line. -/
def run (w : Surroundings) (words : List String) : Report :=
  (Request.ofWords words).run w

end Command

end XmlDraft
