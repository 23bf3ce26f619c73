import XmlDraft.Command.Words

/-!
# Requests

What a command line asks for: help, the version, or one of two tasks with options.  Rendering
runs a building function and writes what it has built; formatting reads a document and writes
it again.  A command line that asks for help or the version is not looked at any further.
-/

namespace XmlDraft

namespace Command

/-- The switches that stand before the name of a task. -/
inductive MainKey where
  | help
  | version
  | verbose
  | quiet
deriving DecidableEq, Repr

/-- The switches that stand behind the name of a task. -/
inductive TaskKey where
  | help
  | indent
  | output
  | config
  | unixNewlines
deriving DecidableEq, Repr

/-- The usage of a command line up to the name of a task. -/
def mainUsage : Usage MainKey where
  switches :=
    [{ key := .help, names := ["-h", "--help"] }, { key := .version, names := ["--version"] },
      { key := .verbose, names := ["--verbose", "-v"] },
      { key := .quiet, names := ["--quiet", "-q"] }]
  takesRest := true

/-- The usage of what follows the name of a task. -/
def taskUsage : Usage TaskKey where
  switches :=
    [{ key := .help, names := ["-h", "--help"] }, { key := .indent, names := ["--indent", "-i"] },
      { key := .output, names := ["--output", "-o"], takesValue := true },
      { key := .config, names := ["--config", "-c"], takesValue := true },
      { key := .unixNewlines, names := ["--unix-newlines"] }]

/-- What a task is done with. -/
structure Options where
  /-- Whether everything is logged. -/
  verbose : Bool := false
  /-- Whether only errors are logged. -/
  quiet : Bool := false
  /-- Whether nested elements are indented. -/
  indent : Bool := false
  /-- The file that is written, in place of the standard output. -/
  output : Option String := none
  /-- The file of the settings. -/
  config : Option String := none
  /-- Whether lines end with a line feed. -/
  unixNewlines : Bool := false

/-- A task. -/
inductive Task where
  /-- Runs the building function that a target names. -/
  | render (target : String)
  /-- Reads the document in a file. -/
  | format (path : String)

/-- What a command line asks for. -/
inductive Request where
  /-- The usage. -/
  | help
  /-- The version. -/
  | version
  /-- It cannot be understood. -/
  | refused
  /-- No task. -/
  | nothing
  /-- A task. -/
  | task (t : Task) (o : Options)

/-- What has been understood of a command line. -/
structure Understood where
  /-- The options. -/
  options : Options := {}
  /-- The operand of the task. -/
  operand : Option String := none
  /-- Whether there are words without a use. -/
  hasExtra : Bool := false

namespace Request

/-- What the words behind the name of a task say, unless they end the command line. -/
def understandTask (u : Understood) : List (Act TaskKey) → Except Request Understood
  | [] => .ok u
  | .refused :: _ => .error .refused
  | .extra :: acts => understandTask { u with hasExtra := true } acts
  | .operand words :: acts => understandTask { u with operand := words.head? } acts
  | .set key value :: acts =>
    match key with
    | .help => .error .help
    | .indent => understandTask { u with options.indent := true } acts
    | .output => understandTask { u with options.output := value } acts
    | .config => understandTask { u with options.config := value } acts
    | .unixNewlines => understandTask { u with options.unixNewlines := true } acts

/-- The task of a name. -/
def taskOf? : String → Option (String → Task)
  | "render" => some .render
  | "format" => some .format
  | _ => none

/-- The request of a task whose name and further words are given. -/
def ofTask (u : Understood) (words : List String) : Request :=
  match words with
  | [] => .refused
  | name :: words =>
    match taskOf? name, understandTask u (taskUsage.acts words) with
    | none, _ => .refused
    | some _, .error r => r
    | some make, .ok u =>
      match u.operand with
      | some operand => if u.hasExtra then .refused else .task (make operand) u.options
      | none => .refused

/-- The request that the words up to the name of a task, and those behind it, make. -/
def ofActs (u : Understood) : List (Act MainKey) → Request
  | [] => if u.hasExtra then .refused else .nothing
  | .refused :: _ => .refused
  | .extra :: acts => ofActs { u with hasExtra := true } acts
  | .operand words :: _ => ofTask u words
  | .set key _ :: acts =>
    match key with
    | .help => .help
    | .version => .version
    | .verbose => ofActs { u with options.verbose := true } acts
    | .quiet => ofActs { u with options.quiet := true } acts

/-- The request that the words of a command line make. -/
def ofWords (words : List String) : Request :=
  ofActs {} (mainUsage.acts words)

/-- The wording of the usage. -/
def usage : String :=
  "usage: xml-draft [-h] [--version] [--verbose] [--quiet] \x7brender,format\x7d ...\n"
    ++ "\n"
    ++ "Build XML documents from building functions, and format documents.\n"
    ++ "\n"
    ++ "  render MODULE:CALLABLE   run a building function\n"
    ++ "  format PATH              write a document again\n"
    ++ "\n"
    ++ "  -h, --help               show the usage\n"
    ++ "  --version                show the version\n"
    ++ "  -v, --verbose            log everything\n"
    ++ "  -q, --quiet              log errors only\n"
    ++ "\n"
    ++ "behind the name of a task:\n"
    ++ "  -i, --indent             indent nested elements\n"
    ++ "  -o, --output OUTPUT      the file to write\n"
    ++ "  -c, --config CONFIG      the file of the settings, in JSON\n"
    ++ "  --unix-newlines          end lines with a line feed\n"

/-- The version. -/
def versionText : String := "0.1.0"

end Request

end Command

end XmlDraft
