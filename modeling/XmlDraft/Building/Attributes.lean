import XmlDraft.Building.Arguments
import XmlDraft.Name.Grammar

/-!
# Bags of attributes

How a bag of attributes lands on an element.  First all names are checked and all values
get their texts, before any node is made; then the attributes are copied in order, except
that the one named `xmlns` becomes the namespace of the element, and those without a
value are passed over.  A name that is no text does not pass the check; where names are not
checked, the copying ends at it, on an element that is attached already.
-/

namespace XmlDraft

/-- Attributes whose values have their texts; some have no value. -/
abbrev Prepared := List (FieldName × Option String)

/-- Whether a name is the one that declares a default namespace. -/
def declaresSpace (name : String) : Bool :=
  name = "xmlns"

/-- Sets an attribute, whose name and value must be texts. -/
def Attributes.assign (attributes : Attributes) (name value : Option String) :
    Except Fault Attributes :=
  match name, value with
  | some n, some v => .ok (attributes.set n v)
  | _, _ => .error .attributeNotText

namespace Name

/-- A text that must be a name. -/
def check (name : Wording) (argument : String) : Except Fault Wording :=
  if isName name.text then .ok name else .error (.misuse (.badName name argument))

end Name

namespace Value

/-- The text of a value that must be a text and must not be empty. -/
def requireText (v : Value) (argument : String) : Except Fault Wording :=
  match v, v.wording? with
  | none, _ => .error (.misuse (.empty argument))
  | _, some w => if w.text = "" then .error (.misuse (.empty argument)) else .ok w
  | _, Option.none => .error (.misuse (.notText argument v.kindName))

end Value

namespace Prepared

/-- The check of the name of an attribute. -/
def checkName : FieldName → Except Fault Unit
  | .text s => (Name.check s "attributes").map fun _ => ()
  | .other _ => .error .wrongKind

/-- One attribute with its text, its name being checked if need be. -/
def one (checked : Bool) (name : FieldName) (v : Value) :
    Except Fault (FieldName × Option String) := do
  if checked then
    checkName name
  match v with
  | .none => .ok (name, none)
  | v => (v.markup.mapError Fault.ofNoText).map fun s => (name, some s)

/-- The attributes of a bag with their texts. -/
def ofFields (checked : Bool) : List (FieldName × Value) → Except Fault Prepared
  | [] => .ok []
  | (name, v) :: rest => do
    let p ← one checked name v
    let ps ← ofFields checked rest
    .ok (p :: ps)

/-- Puts one attribute on an element of a name and attributes. -/
def applyOne (e : QName × Attributes) (p : FieldName × Option String) :
    Except Fault (QName × Attributes) :=
  match p.2 with
  | none => .ok e
  | some value =>
    if p.1.text?.any declaresSpace then .ok (e.1.inSpace (some value), e.2)
    else (e.2.assign p.1.text? (some value)).map fun attributes => (e.1, attributes)

/-- Copies attributes to an element of a name and attributes, one after another, up to the
first one that cannot be set: what has become of the element, and how the copying ends. -/
def copy (ps : Prepared) (name : QName) (attributes : Attributes) :
    (QName × Attributes) × Except Fault Unit :=
  match ps with
  | [] => ((name, attributes), .ok ())
  | p :: rest =>
    match applyOne (name, attributes) p with
    | .ok (name, attributes) => copy rest name attributes
    | .error f => ((name, attributes), .error f)

/-- The name and attributes of an element to which attributes were copied. -/
def apply (ps : Prepared) (name : QName) (attributes : Attributes) : QName × Attributes :=
  (ps.copy name attributes).1

end Prepared

end XmlDraft
