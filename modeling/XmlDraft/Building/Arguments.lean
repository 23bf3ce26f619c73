import XmlDraft.Value.Text
import XmlDraft.Fault

/-!
# Arguments of calls

The classification of the arguments of a call.  A value that can be called with nothing or
with the builder is the fragment of the new element, a scalar is its text, and anything
else is a bag of attributes; a later argument takes the place of an earlier one of the
same class.  Members of an enumeration have names here; what it gives without one, such as
no flag at all, is no value and has no class.
-/

namespace XmlDraft

namespace Value

/-- The number of arguments that a value takes as a fragment: none, one, or no such
number.  A value without a signature counts as taking none. -/
def arity? : Value → Option Nat
  | function ps _ => Signature.arity? ps 0
  | bound ps given _ => Signature.arity? ps given
  | callable ps _ _ _ => Signature.arity? ps 0
  | builtin name =>
    if name = "isinstance" then Option.none
    else if name = "dir" then some 0
    else some 1
  | _ => some 0

/-- The name under which a warning mentions a value that can be called. -/
def mention : Value → String
  | function _ _ => "f"
  | builtin name => name
  | callable _ _ _ true => Text.quoted ""
  | _ => "<object>"

/-- The fields of a mapping, whose names are the texts of its keys. -/
def entries : List (Value × Value) → Except NoText (List (String × Value))
  | [] => .ok []
  | (k, v) :: rest => do
    let name ← k.printed
    let others ← entries rest
    .ok ((name, v) :: others)

/-- Whether a name does not begin with an underscore, which not every name can tell. -/
def isPublic : FieldName → Except Fault Bool
  | .text s => .ok (s.toList.head? ≠ some '_')
  | .other (some isPrivate) => .ok !isPrivate
  | .other Option.none => .error .noAttribute

/-- The fields that are not private, whose names do not begin with an underscore. -/
def publicFields : List (FieldName × Value) → Except Fault (List (FieldName × Value))
  | [] => .ok []
  | f :: rest => do
    let kept ← isPublic f.1
    let others ← publicFields rest
    .ok (if kept then f :: others else others)

/-- The fields of a value as a bag of attributes, in order; most values have none. -/
def fields : Value → Except Fault (List (FieldName × Value))
  | mapping items => ((entries items).mapError Fault.ofNoText).map FieldName.ofTexts
  | record fields => .ok (FieldName.ofTexts fields)
  | row fields => .ok fields
  | object fields => publicFields fields
  | type fields => publicFields (FieldName.ofTexts fields)
  | callable _ fields _ _ => publicFields fields
  | _ => .ok []

/-- What an argument is for a call. -/
inductive Role where
  /-- It is passed over. -/
  | nothing
  /-- It is the fragment, and whether it takes the builder. -/
  | fragment (takesBuilder : Bool)
  /-- It is the text. -/
  | content
  /-- It is a bag of attributes, and whether a warning says so. -/
  | bag (warned : Bool)
deriving DecidableEq, Repr

/-- The role of a value; types are never called. -/
def role (v : Value) : Role :=
  match v with
  | none => .nothing
  | type _ => .bag false
  | _ =>
    if v.isCallable then
      match v.arity? with
      | some 0 => .fragment false
      | some _ => .fragment true
      | Option.none => .bag true
    else if v.isScalar then .content
    else .bag false

/-- Whether a value is a fragment. -/
def isFragment (v : Value) : Bool :=
  match v.role with
  | .fragment _ => true
  | _ => false

end Value

/-- The classified arguments of a call: its text, its attributes, and whether there is a
fragment, which may take the builder. -/
structure Arguments where
  /-- The text. -/
  content : Option String := none
  /-- The attributes. -/
  attributes : Option (List (FieldName × Value)) := none
  /-- The fragment: whether it takes the builder. -/
  fragment : Option Bool := none

namespace Arguments

/-- The arguments with one more. -/
def add (c : Arguments) (v : Value) : Except Fault Arguments :=
  match v.role with
  | .nothing => .ok c
  | .fragment takesBuilder => .ok { c with fragment := some takesBuilder }
  | .content => (v.markup.mapError Fault.ofNoText).map fun s => { c with content := some s }
  | .bag _ => v.fields.map fun fs => { c with attributes := some fs }

/-- The arguments that follow `c`, classified one after another. -/
def classifyFrom (c : Arguments) : List Value → Except Fault Arguments
  | [] => .ok c
  | v :: vs => do
    let c ← c.add v
    classifyFrom c vs

/-- The arguments with those given by name, which are one more bag if there are any. -/
def withNamed (c : Arguments) (named : List (String × Value)) : Arguments :=
  if named.isEmpty then c else { c with attributes := some (FieldName.ofTexts named) }

/-- The classification of the arguments of a call. -/
def classify (vs : List Value) (named : List (String × Value)) : Except Fault Arguments :=
  (classifyFrom {} vs).map fun c => c.withNamed named

/-- The values about which the classification warns, up to the first one that fails. -/
def warnings : List Value → List String
  | [] => []
  | v :: vs =>
    let here := if v.role = .bag true then [v.mention] else []
    match ({} : Arguments).add v with
    | .ok _ => here ++ warnings vs
    | .error _ => here

end Arguments

end XmlDraft
