import XmlDraft.Number.Decimal
import XmlDraft.Number.Shortest
import XmlDraft.Number.Calendar
import XmlDraft.Number.Identifier
import XmlDraft.Value.Signature
import XmlDraft.Text.Wording

/-!
# Values and steps

The values that a call of a builder takes, and the steps of which a fragment consists.
A fragment is a value that can be called; its steps build the inside of an element, and
among them are further calls, so that values and steps are defined together.
-/

namespace XmlDraft

/-- The kind of an enumeration whose members are values: a plain one, one of whole
numbers, one of flags, or one of texts. -/
inductive Enumeration where
  | plain
  | whole
  | flags
  | texts
deriving DecidableEq, Repr

/-- The name of a field of a value: a text, or something else, which may answer whether it
begins with an underscore.  Texts that are members of an enumeration are no names here. -/
inductive FieldName where
  | text (s : String)
  | other (isPrivate : Option Bool)
deriving DecidableEq, Repr

namespace FieldName

/-- The text of a name, if it is one. -/
def text? : FieldName → Option String
  | text s => some s
  | other _ => none

/-- Fields whose names are texts. -/
def ofTexts {α : Type} (fields : List (String × α)) : List (FieldName × α) :=
  fields.map fun f => (text f.1, f.2)

end FieldName

mutual

/-- A value given to a call. -/
inductive Value where
  | none
  | bool (b : Bool)
  | int (n : Int)
  | str (s : String)
  | real (x : Binary64)
  | decimal (d : Decimal)
  | ratio (num : Int) (den : Nat)
  | complex (re im : Binary64)
  | date (d : Date)
  | clock (t : Clock)
  | moment (d : Date) (t : Clock)
  | span (s : Span)
  | identifier (u : Identifier)
  | octets (os : List UInt8)
  /-- A member of an enumeration, with its name and its value.  What an enumeration gives
  without a name, such as flags that are combined or none at all, is no value here. -/
  | member (kind : Enumeration) (name : String) (value : Value)
  | list (items : List Value)
  | tuple (items : List Value)
  | mapping (items : List (Value × Value))
  /-- A record with a fixed list of fields. -/
  | record (fields : List (String × Value))
  /-- A tuple whose places have names. -/
  | row (fields : List (FieldName × Value))
  /-- An object with attributes. -/
  | object (fields : List (FieldName × Value))
  /-- An object without attributes. -/
  | bare
  /-- An object with a fixed layout and no attributes. -/
  | sealed
  /-- A type, with its attributes. -/
  | type (fields : List (String × Value))
  /-- A function with its parameters and its body. -/
  | function (parameters : List Parameter) (body : List Step)
  /-- A function with a number of arguments given in advance. -/
  | bound (parameters : List Parameter) (given : Nat) (body : List Step)
  /-- An object that can be called, possibly an empty text at the same time. -/
  | callable (parameters : List Parameter) (fields : List (FieldName × Value))
    (body : List Step) (isText : Bool)
  /-- A function of the surroundings, by name. -/
  | builtin (name : String)

/-- A step of a fragment or of a session. -/
inductive Step where
  /-- A call of the builder under a name, with arguments and named arguments, whose names are no
  members of an enumeration either. -/
  | call (name : String) (arguments : List Value) (named : List (String × Value))
  /-- The question whether the builder has an attribute of a name. -/
  | has (name : String)
  /-- A view of the document. -/
  | view (name : String)
  /-- The question for the number of open elements. -/
  | depth
  /-- Steps each of which may fail without ending the others. -/
  | attempt (steps : List Step)
  /-- A failure with a message of its own. -/
  | raise (message : String)
  /-- An interruption by the user. -/
  | interrupt
  /-- The question for the arguments of the fragment. -/
  | arguments

end

namespace Value

instance : Inhabited Value := ⟨none⟩

/-- The word for the kind of a value. -/
def kindName : Value → String
  | none => "NoneType"
  | bool _ => "bool"
  | int _ => "int"
  | str _ => "str"
  | real _ => "float"
  | decimal _ => "Decimal"
  | ratio _ _ => "Fraction"
  | complex _ _ => "complex"
  | date _ => "date"
  | clock _ => "time"
  | moment _ _ => "datetime"
  | span _ => "timedelta"
  | identifier _ => "UUID"
  | octets _ => "bytes"
  | member _ _ _ => "E"
  | list _ => "list"
  | tuple _ => "tuple"
  | mapping _ => "dict"
  | record _ => "Bag"
  | row _ => "Row"
  | object _ => "object"
  | bare => "object"
  | sealed => "object"
  | type _ => "type"
  | function _ _ => "function"
  | bound _ _ _ => "partial"
  | callable _ _ _ _ => "K"
  | builtin _ => "builtin_function_or_method"

/-- The text of a value that is one, with its printed form if it is a member of an
enumeration of texts. -/
def wording? : Value → Option Wording
  | str s => some s
  | member .texts name (str s) => some ⟨s, some ("E." ++ name)⟩
  | callable _ _ _ true => some ""
  | _ => Option.none

/-- The characters of a value that is a text. -/
def text? (v : Value) : Option String :=
  v.wording?.map Wording.text

/-- A scalar is a text, a number, a date or time, a duration, an identifier, or a member
of an enumeration. -/
def isScalar : Value → Bool
  | bool _ => true
  | int _ => true
  | str _ => true
  | real _ => true
  | decimal _ => true
  | ratio _ _ => true
  | complex _ _ => true
  | date _ => true
  | clock _ => true
  | moment _ _ => true
  | span _ => true
  | identifier _ => true
  | member _ _ _ => true
  | callable _ _ _ isText => isText
  | _ => false

/-- Whether a value can be called. -/
def isCallable : Value → Bool
  | type _ => true
  | function _ _ => true
  | bound _ _ _ => true
  | callable _ _ _ _ => true
  | builtin _ => true
  | _ => false

end Value

end XmlDraft
