import XmlDraft.Building.Builder
import XmlDraft.Reading.Assembly

/-!
# Builders of existing documents

Reading markup into a builder.  Reading is recorded before it begins, and a second record
says where markup is malformed.  A new node goes to the top level of the document that was
read, so that beside its root only comments can be added.
-/

namespace XmlDraft

namespace Builder

/-- The word for the kind of a source. -/
def sourceKind : Source → String
  | .text _ => "str"
  | .octets _ => "bytes"

/-- The record of the beginning of reading. -/
def readingRecord (correlation : Json) (source : Source) : Log.Record :=
  (Log.Source.of "api.builders" (some "parse") correlation).record .debug "Reading markup"
    [("input_type", .str (sourceKind source)), ("length", .int source.size)]

/-- The record of malformed markup. -/
def malformedRecord (correlation : Json) (p : Position) : Log.Record :=
  (Log.Source.of "tree.reader" (some "reader") correlation).record .error
    "Markup could not be read" [("line", .int p.line), ("column", .int p.column)]

/-- The records of reading a source, the latest first, given what came of it. -/
def readingRecords (correlation : Json) (source : Source) (r : Except Fault Document) :
    List Log.Record :=
  let first := readingRecord correlation source
  match r with
  | .error (.unreadable (.malformed _ p)) => [malformedRecord correlation p, first]
  | _ => [first]

/-- The builder of the document that a source writes, and the records of reading it, the
latest first. -/
def ofSource (settings : Settings) (source : Source) : List Log.Record × Except Fault Builder :=
  let document := readDocument source
  let records := readingRecords settings.correlation source document
  (records, document.map fun d => ofDocument d settings records)

end Builder

end XmlDraft
