import XmlDraft.Writing.Render
import XmlDraft.Json.Reading
import XmlDraft.Text.Quoted

/-!
# Settings

The settings of a builder: the layout of what it writes, the character that escapes tag
names, whether names are checked, an identifier that marks its log records, and a logging
level.  Building a layout or settings checks them; the presets are settings by name.
Settings come from loosely typed data, so some of them may hold values of any kind.
-/

namespace XmlDraft

/-- The layout section of settings: a checked layout, or data of another kind that was
put in its place. -/
inductive LayoutSection where
  | checked (layout : Layout)
  | loose (data : Json)

/-- The settings of a builder. -/
structure Settings where
  /-- The layout of what is written. -/
  layout : LayoutSection := .checked (Layout.mk "  " "\r\n" (.str "1.0") (.str "utf-8"))
  /-- The character that is taken from the head of tag names. -/
  escapeMark : Json := .str "_"
  /-- Whether names are checked. -/
  checkNames : Json := .bool true
  /-- The identifier that marks log records. -/
  correlation : Json := .null
  /-- The logging level of the command line. -/
  loggingLevel : String := "INFO"

/-- The names of the logging levels, from the least to the most severe. -/
def levelNames : List String :=
  ["DEBUG", "INFO", "WARNING", "ERROR", "CRITICAL"]

/-- Texts in quoted form, between brackets. -/
def quotedList (items : List String) : String :=
  "[" ++ Text.joined ", " (items.map Text.quoted) ++ "]"

/-- What makes settings invalid. -/
inductive InvalidSetting where
  | indentation
  | newline
  | emptyVersion
  | emptyEncoding
  | escapeMark
  | loggingLevel
  | unknownSection (name : String)
  /-- Names that are no settings, in their shown form. -/
  | unknownNames (shown : String)
  /-- Data that does not fit a section, in the words of the check that refused it. -/
  | refused (reason : String)
deriving DecidableEq, Repr

namespace InvalidSetting

/-- The wording of an invalid setting. -/
def message : InvalidSetting → String
  | indentation => "indent_chars may only contain spaces and tabs"
  | newline => "newline must be one of CRLF, LF or CR"
  | emptyVersion => "default_version cannot be empty"
  | emptyEncoding => "default_encoding cannot be empty"
  | escapeMark => "escape_prefix must be a single character"
  | loggingLevel => "logging_level must be one of " ++ quotedList levelNames
  | unknownSection name => "Unknown configuration section: " ++ name
  | unknownNames shown => "Unknown configuration keys: " ++ shown
  | refused reason => reason

/-- The name of the setting, where one is at fault. -/
def field? : InvalidSetting → Option String
  | indentation => some "indent_chars"
  | newline => some "newline"
  | emptyVersion => some "default_version"
  | emptyEncoding => some "default_encoding"
  | escapeMark => some "escape_prefix"
  | loggingLevel => some "logging_level"
  | unknownSection name => some name
  | unknownNames _ => none
  | refused _ => none

/-- What may be set instead. -/
def suggestions : InvalidSetting → List String
  | newline =>
    ["Use '\\r\\n' for Windows-style output", "Use '\\n' for Unix-style output"]
  | unknownNames _ =>
    ["correlation_id", "escape_prefix", "logging_level", "serialization", "validate_names"]
  | _ => []

end InvalidSetting

/-- Why settings could not be made. -/
inductive SettingsFault where
  | invalid (cause : InvalidSetting)
  /-- The text is no JSON. -/
  | notJson (f : Json.Fault)
  | notObject
  /-- Data of a kind that a check cannot look at, in the words of the check. -/
  | wrongKind (reason : String)
  /-- Data that has no such operation. -/
  | noSuchOperation
  /-- A sequence that does not consist of pairs. -/
  | notPairs
  /-- A whole number that is too long to be written. -/
  | longNumber
  /-- A whole number that is too long to be read, with the number of its digits. -/
  | longNumeral (digits : Nat)

namespace SettingsFault

/-- The wording of a fault. -/
def message : SettingsFault → String
  | invalid cause => cause.message
  | notJson f => "Invalid configuration JSON: " ++ f.message
  | notObject => "Configuration JSON must be an object"
  | wrongKind reason => reason
  | noSuchOperation => "no such operation"
  | notPairs => "not a sequence of pairs"
  | longNumber =>
    "Exceeds the limit (4300 digits) for integer string conversion; "
      ++ "use sys.set_int_max_str_digits() to increase the limit"
  | longNumeral digits => (Json.Cause.longNumeral digits).message

end SettingsFault

/-- The line terminators that may be set. -/
def validNewlines : List String :=
  ["\r\n", "\n", "\r"]

namespace Layout

/-- A layout of fields that pass the checks, which are made one after another. -/
def check (indent newline version encoding : Json) : Except SettingsFault Layout :=
  match indent with
  | .str i =>
    if !(i.toList.all fun c => c = ' ' || c = '\t') then .error (.invalid .indentation)
    else
      match newline with
      | .str n =>
        if n ∉ validNewlines then .error (.invalid .newline)
        else if !version.counts then .error (.invalid .emptyVersion)
        else if !encoding.counts then .error (.invalid .emptyEncoding)
        else .ok ⟨i, n, version, encoding⟩
      | _ => .error (.invalid .newline)
  | _ => .error .noSuchOperation

/-- The fields of a layout under their names. -/
def members (l : Layout) : List (String × Json) :=
  [("indent_chars", .str l.indent), ("newline", .str l.newline),
    ("default_version", l.version), ("default_encoding", l.encoding)]

/-- Why a name cannot be set in a section whose fields are known, if it cannot. -/
def refusal? (maker : String) (known : List String) (name : String) : Option String :=
  if name = "self" then some (maker ++ " got multiple values for argument 'self'")
  else if name ∈ known then none
  else some (maker ++ " got an unexpected keyword argument " ++ Text.quoted name)

/-- A layout with some fields set anew. -/
def update (l : Layout) (changes : List (String × Json)) : Except SettingsFault Layout :=
  let old := l.members
  let reasons := changes.filterMap fun c =>
    refusal? "SerializationConfig.__init__()" (old.map Prod.fst) c.1
  match reasons with
  | reason :: _ => .error (.wrongKind reason)
  | [] =>
    let field := fun name value => ((changes.lookup name).getD value : Json)
    check (field "indent_chars" (.str l.indent)) (field "newline" (.str l.newline))
      (field "default_version" l.version) (field "default_encoding" l.encoding)

/-- The layout of data that sets some of its fields. -/
def ofMembers (members : List (String × Json)) : Except SettingsFault Layout :=
  update {} members

/-- Whether two layouts have equal fields. -/
def same (a b : Layout) : Bool :=
  a.indent = b.indent && a.newline = b.newline && a.version.same b.version
    && a.encoding.same b.encoding

end Layout

namespace LayoutSection

/-- Whether two sections are equal. -/
def same : LayoutSection → LayoutSection → Bool
  | checked a, checked b => a.same b
  | loose a, loose b => a.same b
  | _, _ => false

/-- A section as data. -/
def data : LayoutSection → Json
  | checked l => .obj l.members
  | loose d => d

end LayoutSection

namespace Settings

/-- Whether two settings are equal. -/
def same (a b : Settings) : Bool :=
  a.layout.same b.layout && a.escapeMark.same b.escapeMark
    && a.checkNames.same b.checkNames && a.correlation.same b.correlation
    && a.loggingLevel = b.loggingLevel

/-- Settings whose fields pass the checks: the mark that escapes names is of size one, and
the logging level has one of the known names. -/
def check (layout : LayoutSection) (escapeMark checkNames correlation level : Json) :
    Except SettingsFault Settings :=
  match escapeMark.size? with
  | none =>
    .error (.wrongKind ("object of type '" ++ escapeMark.kindName ++ "' has no len()"))
  | some n =>
    if n ≠ 1 then .error (.invalid .escapeMark)
    else
      match level with
      | .str l =>
        if l ∈ levelNames then .ok ⟨layout, escapeMark, checkNames, correlation, l⟩
        else .error (.invalid .loggingLevel)
      | _ => .error (.invalid .loggingLevel)

/-- The settings of a preset. -/
def preset? (name : String) : Option Settings :=
  if name = "default" || name = "strict" then some {}
  else if name = "unix" then some { layout := .checked { newline := "\n" } }
  else if name = "lenient" then some { checkNames := .bool false }
  else none

end Settings

end XmlDraft
