import XmlDraft.Reading.Scan
import XmlDraft.Text.Lines

/-!
# Entities and attribute values

What a document type declares, and the texts that depend on it: the replacement text of an
entity, and the value of an attribute with its references replaced and its blanks
normalised.  An entity that is being replaced may not occur in its own replacement.
-/

namespace XmlDraft

namespace Reading

/-- A cause, and the characters at which it was found, if they are not those of the whole
piece that is being read. -/
abbrev Trouble := Malformed × Option (List Char)

/-- The trouble of a lapse inside a piece, where an unclosed reference begins at `cs`. -/
def troubleOf (l : Lapse) (cs : List Char) : Trouble :=
  match l with
  | .invalid rest => (.invalidToken, some rest)
  | .unclosed => (.invalidToken, some cs)
  | .partialCharacter => (.invalidToken, some cs)

namespace Medium

/-- The medium of a piece of markup that has been cut out as a whole. -/
def enclosed (m : Medium) : Medium :=
  { m with ending := .clean, spare := 0 }

/-- The medium of replacement texts, which are kept in UTF-8 and in which the ends of lines
have been unified before. -/
def replaced (m : Medium) : Medium where
  alphabet := { m.alphabet with signs := false, known := 0x80 }
  unifies := false

end Medium

/-- What an entity stands for. -/
inductive Entity where
  /-- A replacement text. -/
  | internal (text : List Char)
  /-- A text that is kept elsewhere. -/
  | external
  /-- Something that is no markup. -/
  | unparsed
deriving DecidableEq, Repr

/-- A declaration of an attribute: whether its value is kept character by character, and
its default value. -/
structure AttributeDeclaration where
  /-- The element. -/
  element : List Char
  /-- The attribute. -/
  name : List Char
  /-- Whether the value is of the plain type. -/
  isPlain : Bool
  /-- The default value. -/
  value : Option (List Char)
deriving DecidableEq, Repr

/-- What is known from the declarations of a document. -/
structure Declarations where
  /-- Whether the document says that it stands alone. -/
  standalone : Bool := false
  /-- Whether there may be declarations that are not seen: there is an external subset, or
  a parameter is referred to. -/
  isPartial : Bool := false
  /-- Whether further declarations count. -/
  keepsReading : Bool := true
  /-- The entities by name, in the order of declaration. -/
  entities : List (List Char × Entity) := []
  /-- The declarations of attributes, in order. -/
  attributes : List AttributeDeclaration := []

namespace Declarations

/-- The entity of a name. -/
def entity? (d : Declarations) (name : List Char) : Option Entity :=
  d.entities.lookup name

/-- Whether an entity that is not declared is a fault: all declarations have been seen. -/
def isComplete (d : Declarations) : Bool :=
  !d.isPartial || d.standalone

/-- The declarations of an element's attributes. -/
def attributesOf (d : Declarations) (element : List Char) : List AttributeDeclaration :=
  d.attributes.filter (·.element = element)

/-- The declarations with one more of an attribute.  One with a default value, or of an
identifier, does not count where the attribute is declared already. -/
def declareAttribute (d : Declarations) (a : AttributeDeclaration) (isIdentifier : Bool) :
    Declarations :=
  if (a.value.isSome || isIdentifier) && d.attributes.any fun b =>
      b.element = a.element && b.name = a.name then d
  else { d with attributes := d.attributes ++ [a] }

/-- The declarations with one more entity; the first one of a name counts. -/
def declareEntity (d : Declarations) (name : List Char) (e : Entity) : Declarations :=
  if (d.entity? name).isSome then d else { d with entities := d.entities ++ [(name, e)] }

end Declarations

/-- The characters that have a name in every document. -/
def predefined? (name : List Char) : Option Char :=
  if name = ['l', 't'] then some '<'
  else if name = ['g', 't'] then some '>'
  else if name = ['a', 'm', 'p'] then some '&'
  else if name = ['q', 'u', 'o', 't'] then some '"'
  else if name = ['a', 'p', 'o', 's'] then some '\''
  else none

/-! ### Replacement texts -/

/-- The replacement text that the literal of a declaration gives: references by number
are replaced, references by name stay, and references to parameters have no place here.
`fuel` bounds the number of characters. -/
def replacementText (m : Medium) : Nat → List Char → Except Trouble (List Char)
  | 0, _ => .ok []
  | _, [] => .ok []
  | fuel + 1, c :: cs =>
    match c with
    | '&' =>
      match m.reference cs with
      | .error l => .error (troubleOf l (c :: cs))
      | .ok (.numbered none, _) => .error (.invalidCharacterNumber, some (c :: cs))
      | .ok (.numbered (some x), rest) => (replacementText m fuel rest).map (x :: ·)
      | .ok (.named name, rest) =>
        (replacementText m fuel rest).map fun ds => '&' :: name ++ ';' :: ds
    | '%' =>
      match m.plainName cs with
      | .error l => .error (troubleOf l (c :: cs))
      | .ok (_, ';' :: _) => .error (.illegalParameterReference, some (c :: cs))
      | .ok (_, rest) => .error (.invalidToken, some rest)
    | '\r' =>
      match cs with
      | '\n' :: rest => (replacementText m fuel rest).map ('\n' :: ·)
      | _ => (replacementText m fuel cs).map ('\n' :: ·)
    | _ => (replacementText m fuel cs).map (c :: ·)

/-! ### Attribute values -/

/-- An attribute value that is being read: its characters so far in reverse, and how many
octets of replacement texts have been read. -/
structure Gathered where
  /-- The characters, the last one first. -/
  reversed : List Char := []
  /-- The octets of replacement texts. -/
  spent : Nat := 0

namespace Gathered

/-- The value with one more character. -/
def add (g : Gathered) (c : Char) : Gathered :=
  { g with reversed := c :: g.reversed }

/-- The value with one more blank.  Unless the value is of the plain type, a blank at its
start or after another one does not count. -/
def addBlank (g : Gathered) (isPlain : Bool) : Gathered :=
  if !isPlain && (g.reversed.head?.getD ' ' = ' ') then g else g.add ' '

/-- The value: unless it is of the plain type, without a blank at its end. -/
def value (g : Gathered) (isPlain : Bool) : List Char :=
  match g.reversed with
  | ' ' :: rest => if isPlain then g.reversed.reverse else rest.reverse
  | cs => cs.reverse

end Gathered

/-- The number of octets of the source that have been read when given characters follow; there
is none where replacement texts may be of any length. -/
abbrev Account := List Char → Option Nat

/-- The account under which replacement texts may be of any length. -/
def Account.unlimited : Account :=
  fun _ => none

/-- The limit of octets that replacement texts may give together with the source, below
which no expansion is too large. -/
def expansionLimit : Nat := 8388608

/-- Whether an expansion is too large: over the limit, and more than a hundred times the
octets of the source read so far, if these count. -/
def isExcessive (direct : Option Nat) (spent : Nat) : Bool :=
  direct.any fun direct => expansionLimit ≤ direct + spent && 100 * direct < direct + spent

/-- The number of octets of a text in UTF-8. -/
def octetCount (cs : List Char) : Nat :=
  cs.foldl (fun n c => n + utf8Width c) 0

/-- How a reference to an entity is replaced in an attribute value. -/
abbrev Replacing := List Char → Gathered → Except Trouble Gathered

/-- The value that the characters of an attribute give, given how references to entities
are replaced; `fuel` bounds their number. -/
def gather (m : Medium) (isPlain : Bool) (replace : Replacing) :
    Nat → List Char → Gathered → Except Trouble Gathered
  | 0, _, g => .ok g
  | _, [], g => .ok g
  | fuel + 1, c :: cs, g =>
    match c with
    | '&' =>
      match m.reference cs with
      | .error l => .error (troubleOf l (c :: cs))
      | .ok (.numbered none, _) => .error (.invalidCharacterNumber, some (c :: cs))
      | .ok (.numbered (some x), rest) =>
        gather m isPlain replace fuel rest (if x = ' ' then g.addBlank isPlain else g.add x)
      | .ok (.named name, rest) =>
        match predefined? name with
        | some x => gather m isPlain replace fuel rest (g.add x)
        | none =>
          match replace name g with
          | .ok g => gather m isPlain replace fuel rest g
          | .error (cause, place) => .error (cause, place.map fun _ => c :: cs)
    | '<' => .error (.invalidToken, some (c :: cs))
    | '\r' =>
      match m.unifies, cs with
      | true, '\n' :: rest => gather m isPlain replace fuel rest (g.addBlank isPlain)
      | _, _ => gather m isPlain replace fuel cs (g.addBlank isPlain)
    | _ => gather m isPlain replace fuel cs (if isBlank c then g.addBlank isPlain else g.add c)

/-- The replacement of a reference to an entity in an attribute value.  `level` bounds the
depth of replacements; `opened` are the entities that are being replaced.  An entity that
has no replacement text is found at the reference, and other trouble has no place of its
own. -/
def replaceAt (m : Medium) (d : Declarations) (isPlain : Bool) (direct : Option Nat) :
    Nat → List (List Char) → Replacing
  | 0, _, _, _ => .error (.recursiveEntity, none)
  | level + 1, opened, name, g =>
    match d.entity? name with
    | none => if d.isComplete then .error (.undefinedEntity, none) else .ok g
    | some e =>
      if name ∈ opened then .error (.recursiveEntity, none)
      else
        match e with
        | .unparsed => .error (.binaryEntity, some [])
        | .external => .error (.externalEntityInAttribute, some [])
        | .internal text =>
          let spent := g.spent + octetCount text
          if isExcessive direct spent then .error (.amplification, none)
          else
            (gather m.replaced isPlain (replaceAt m d isPlain direct level (name :: opened))
                (text.length + 1) text { g with spent := spent }).mapError
              fun (cause, _) => (cause, none)

/-- The normalised value of an attribute, and the octets of replacement texts read, where the
entities of `opened` are being replaced around it and `direct` octets of the source have been
read. -/
def attributeValue (m : Medium) (d : Declarations) (opened : List (List Char)) (isPlain : Bool)
    (direct : Option Nat) (spent : Nat) (raw : List Char) : Except Trouble (List Char × Nat) :=
  let replace := replaceAt m d isPlain direct (d.entities.length + 1) opened
  (gather m.enclosed isPlain replace (raw.length + 1) raw ⟨[], spent⟩).map fun g =>
    (g.value isPlain, g.spent)

end Reading

end XmlDraft
