import XmlDraft.Fault

/-!
# Log records

Records of what happens to a document.  Each one carries the component that made it and
an identifier that marks the records of one builder, so that the output of several
builders can be told apart.
-/

namespace XmlDraft

namespace Log

/-- A level of severity. -/
inductive Level where
  | debug
  | info
  | warning
  | error
  | critical
deriving DecidableEq, Repr

namespace Level

/-- The severity of a level. -/
def severity : Level → Nat
  | debug => 10
  | info => 20
  | warning => 30
  | error => 40
  | critical => 50

/-- The name of a level. -/
def name : Level → String
  | debug => "DEBUG"
  | info => "INFO"
  | warning => "WARNING"
  | error => "ERROR"
  | critical => "CRITICAL"

/-- The levels, from the least to the most severe. -/
def all : List Level :=
  [debug, info, warning, error, critical]

/-- The level of a name. -/
def ofName? (s : String) : Option Level :=
  all.find? fun l => l.name = s

/-- Whether records of a level pass a threshold. -/
def passes (l threshold : Level) : Bool :=
  threshold.severity ≤ l.severity

end Level

/-- A record. -/
structure Record where
  /-- The severity. -/
  level : Level
  /-- The name of the logger. -/
  logger : String
  /-- The message. -/
  message : String
  /-- The component that made the record. -/
  component : Json
  /-- The identifier of the builder. -/
  correlation : Json
  /-- Further data, ordered by name. -/
  extra : List (String × Json)

/-- Who makes records: a logger, a component, and an identifier. -/
structure Source where
  /-- The name of the logger. -/
  logger : String
  /-- The component. -/
  component : String
  /-- The identifier. -/
  correlation : Json

/-- The name that all loggers begin with. -/
def family : String := "dynamic_xml_builder"

/-- The last part of a dotted name. -/
def lastPart (name : String) : String :=
  String.ofList (name.toList.reverse.takeWhile (· ≠ '.')).reverse

/-- The names that every record has for itself. -/
def reservedNames : List String :=
  ["name", "msg", "args", "levelname", "levelno", "pathname", "filename", "module",
    "exc_info", "exc_text", "stack_info", "lineno", "funcName", "created", "msecs",
    "relativeCreated", "thread", "threadName", "processName", "process", "message",
    "asctime"]

namespace Source

/-- A source of the family, whose component is the last part of its name unless one is
given that is not empty. -/
def of (name : String) (component : Option String) (correlation : Json) : Source where
  logger := family ++ "." ++ name
  component := match component with
    | some c => if c = "" then lastPart name else c
    | none => lastPart name
  correlation := correlation

/-- The record of a message with further data, which may replace the component and the
identifier. -/
def record (s : Source) (level : Level) (message : String) (extra : List (String × Json)) :
    Record where
  level := level
  logger := s.logger
  message := message
  component := (extra.lookup "component").getD (.str s.component)
  correlation := (extra.lookup "correlation_id").getD s.correlation
  extra := (extra.filter fun e => e.1 ≠ "component" && e.1 ≠ "correlation_id").mergeSort
    fun a b => a.1 = b.1 || a.1 < b.1

/-- The record of a message where its level passes the threshold of the logger; further
data may not use a name that every record has for itself. -/
def emit (s : Source) (threshold level : Level) (message : String)
    (extra : List (String × Json)) : Except Fault (Option Record) :=
  if !level.passes threshold then .ok none
  else if extra.any fun e => e.1 ∈ reservedNames then .error .reservedKey
  else .ok (some (s.record level message extra))

end Source

/-- The records that pass a threshold. -/
def passing (threshold : Level) (records : List Record) : List Record :=
  records.filter fun r => r.level.passes threshold

/-- A letter in upper case, as far as names of levels can be made of it. -/
def upperLetter (c : Char) : Char :=
  if c = 'ı' then 'I' else if c = 'ſ' then 'S' else c.toUpper

/-- The level of a name in any letter case. -/
def levelOf? (name : String) : Option Level :=
  Level.ofName? (String.ofList (name.toList.map upperLetter))

end Log

end XmlDraft
