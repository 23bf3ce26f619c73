import XmlDraft.Settings.Basic
import XmlDraft.Json.Writing

/-!
# Settings as data

Settings from data and text and back, and settings changed at some places.  Data with an
unknown name is refused, so that a name that is spelled wrongly does not pass in silence.
A name with two underscores sets a field of a section.
-/

namespace XmlDraft

namespace Settings

/-- The names of the settings, in order. -/
def fieldNames : List String :=
  ["serialization", "escape_prefix", "validate_names", "correlation_id", "logging_level"]

/-- The settings under their names. -/
def members (s : Settings) : List (String × Json) :=
  [("serialization", s.layout.data), ("escape_prefix", s.escapeMark),
    ("validate_names", s.checkNames), ("correlation_id", s.correlation),
    ("logging_level", .str s.loggingLevel)]

/-- The settings as data. -/
def data (s : Settings) : Json :=
  .obj s.members

/-- The section that a value for the layout stands for in settings read from data. -/
def layoutOf : Json → Except SettingsFault LayoutSection
  | .obj members => (Layout.ofMembers members).map .checked
  | d => .ok (.loose d)

/-- The settings of data in which every name is known. -/
def ofKnown (members : List (String × Json)) : Except SettingsFault Settings := do
  let layout ← match members.lookup "serialization" with
    | some d => layoutOf d
    | none => pure (.checked {})
  let field := fun name value => ((members.lookup name).getD value : Json)
  check layout (field "escape_prefix" (.str "_")) (field "validate_names" (.bool true))
    (field "correlation_id" .null) (field "logging_level" (.str "INFO"))

/-! ### Names in data -/

/-- The order of texts by the numbers of their characters. -/
def textLE (a b : String) : Bool :=
  a = b || a < b

/-- The order of numbers by value. -/
def numberLE (a b : Json) : Bool :=
  match a.ratio?, b.ratio? with
  | some (n, d), some (m, e) => n * e ≤ m * d
  | _, _ => true

/-- A scalar as messages show it. -/
def shown : Json → String
  | .null => "None"
  | .bool b => if b then "True" else "False"
  | .int n => Text.intText n
  | .real x => x.text
  | .str s => Text.quoted s
  | _ => ""

/-- A list without repetitions, the first of equal items being kept. -/
def distinct (items : List Json) : List Json :=
  items.foldl (fun seen x => if seen.any (·.same x) then seen else seen ++ [x]) []

/-- Scalars in order, where they can be ordered. -/
def sorted? (items : List Json) : Option (List Json) :=
  match items with
  | [] => some []
  | [x] => some [x]
  | _ =>
    if items.all fun x => x.text?.isSome then
      some ((items.mergeSort fun a b => textLE (a.text?.getD "") (b.text?.getD "")))
    else if items.all fun x => x.ratio?.isSome then some (items.mergeSort numberLE)
    else none

/-- The fault of a sequence of names none of which stands for a value: there are unknown
ones, or else the sequence has no pairs. -/
def namesFault (names : List Json) : SettingsFault :=
  if names.any fun x => match x with | .arr _ => true | .obj _ => true | _ => false then
    .wrongKind "unhashable"
  else
    let unknown := distinct (names.filter fun x => !(x.text?.any (· ∈ fieldNames)))
    match sorted? unknown with
    | none => .wrongKind "not ordered"
    | some [] => .notPairs
    | some items => .invalid (.unknownNames ("[" ++ Text.joined ", " (items.map shown) ++ "]"))

/-- The settings of data.  An empty sequence sets nothing. -/
def ofData (d : Json) : Except SettingsFault Settings :=
  match d with
  | .obj members =>
    if members.all fun m => m.1 ∈ fieldNames then ofKnown members
    else .error (namesFault (members.map fun m => .str m.1))
  | .arr [] => .ok {}
  | .str "" => .ok {}
  | .arr items => .error (namesFault items)
  | .str s => .error (namesFault (s.toList.map fun c => .str (String.singleton c)))
  | _ => .error (.wrongKind ("'" ++ d.kindName ++ "' object is not iterable"))

/-! ### Text -/

/-- The settings that a text of JSON writes. -/
def ofText (text : String) : Except SettingsFault Settings :=
  match Json.ofText text with
  | .error f =>
    match f.cause with
    | .longNumeral digits => .error (.longNumeral digits)
    | _ => .error (.notJson f)
  | .ok (.obj members) => ofData (.obj members)
  | .ok _ => .error .notObject

/-- The indentation that an argument stands for: none, a text, or a number of blanks. -/
def indentation : Json → Except SettingsFault (Option String)
  | .null => .ok none
  | .str s => .ok (some s)
  | .int n => .ok (some (String.ofList (List.replicate n.toNat ' ')))
  | .bool b => .ok (some (if b then " " else ""))
  | _ => .error (.wrongKind "no number of blanks")

/-- The settings as a text of JSON. -/
def toText (s : Settings) (indent : Json) : Except SettingsFault String := do
  let unit ← indentation indent
  if s.data.isWritable then .ok (s.data.text unit) else .error .longNumber

/-- Whether reading the text of settings gives the same settings. -/
def survivesText (s : Settings) : Except SettingsFault Bool := do
  let text ← s.toText (.int 2)
  let read ← ofText text
  .ok (read.same s)

/-! ### Changes -/

/-- A change of settings: data for one of them or for a field of a section, or a layout for the
section as a whole. -/
inductive Change where
  | data (name : String) (value : Json)
  | layout (l : Layout)

namespace Change

/-- The name under which a change is made. -/
def name : Change → String
  | data name _ => name
  | layout _ => "serialization"

/-- The name and the data of a change that is made with data. -/
def pair? : Change → Option (String × Json)
  | data name value => some (name, value)
  | layout _ => none

/-- The section that a change puts in the place of the layout, if it does. -/
def section? : Change → Option LayoutSection
  | data name value => if name = "serialization" then some (.loose value) else none
  | layout l => some (.checked l)

/-- Adds a change to others; one under the same name gives its place to it. -/
def put (changes : List Change) (c : Change) : List Change :=
  match changes with
  | [] => [c]
  | c' :: rest => if c'.name = c.name then c :: rest else c' :: put rest c

end Change

/-- The two parts of a name around its first two underscores, if it has them. -/
def splitName? : List Char → Option (List Char × List Char)
  | '_' :: '_' :: cs => some ([], cs)
  | c :: cs => (splitName? cs).map fun (a, b) => (c :: a, b)
  | [] => none

/-- The section and the field of a name, if it names a field of a section. -/
def sectionField? (name : String) : Option (String × String) :=
  (splitName? name.toList).map fun (a, b) => (String.ofList a, String.ofList b)

/-- The changes for fields of sections, grouped by section in the order of their first
mention. -/
def grouped : List (String × Json) → List (String × List (String × Json))
  | changes =>
    let parts := changes.filterMap fun c => (sectionField? c.1).map fun (s, f) => (s, f, c.2)
    let sections := (parts.map fun p => p.1).eraseDups
    sections.map fun s =>
      (s, (parts.filter fun p => p.1 = s).foldl (fun m p => Json.put m p.2.1 p.2.2) [])

/-- The layout section with some fields set anew. -/
def changedLayout (s : Settings) (changes : List (String × Json)) :
    Except SettingsFault LayoutSection :=
  match s.layout with
  | .checked l => (l.update changes).map .checked
  | .loose _ => .error (.wrongKind "replace() should be called on dataclass instances")

/-- The sections that changes of their fields set anew: there is only the one for the
layout. -/
def changedSections (s : Settings) :
    List (String × List (String × Json)) → Except SettingsFault (Option LayoutSection)
  | [] => .ok none
  | (name, changes) :: rest => do
    if name ≠ "serialization" then .error (.invalid (.unknownSection name))
    let layout ← s.changedLayout changes
    let later ← s.changedSections rest
    .ok (later.or (some layout))

/-- The settings with some of them set anew, where nothing is rewrapped.  A section of which fields
are set anew takes the place of one that is given. -/
def changed (s : Settings) (changes : List Change) : Except SettingsFault Settings := do
  let pairs := changes.filterMap Change.pair?
  let top := pairs.filter fun c => (sectionField? c.1).isNone
  let layout? ← s.changedSections (grouped pairs)
  let reasons := top.filterMap fun c =>
    Layout.refusal? "BuilderConfig.__init__()" fieldNames c.1
  match reasons with
  | reason :: _ => .error (.wrongKind reason)
  | [] =>
    let field := fun name value => ((top.lookup name).getD value : Json)
    let layout := (layout?.or (changes.findSome? Change.section?)).getD s.layout
    check layout (field "escape_prefix" s.escapeMark) (field "validate_names" s.checkNames)
      (field "correlation_id" s.correlation) (field "logging_level" (.str s.loggingLevel))

/-- The settings with changes made to them; data of a kind that does not fit makes them invalid. -/
def overrideBy (s : Settings) (changes : List Change) : Except SettingsFault Settings :=
  if changes.any fun c => c.name = "self" then .error (.wrongKind "self is taken")
  else
    match s.changed (changes.foldl Change.put []) with
    | .error (.wrongKind reason) => .error (.invalid (.refused reason))
    | r => r

/-- The settings with data set anew under some names. -/
def override (s : Settings) (changes : List (String × Json)) : Except SettingsFault Settings :=
  s.overrideBy (changes.map fun c => .data c.1 c.2)

end Settings

end XmlDraft
