import XmlDraft.Name.Qualified
import XmlDraft.Reading.Event

/-!
# Tags

What a start tag says once its references are replaced and its names are resolved: its
attributes, those that have default values only, and the namespaces that it declares.  A
prefix stands for the namespace of its latest declaration around it.  Without a separator,
which would stand between a namespace and a local part, names are not taken apart.
-/

namespace XmlDraft

namespace Reading

/-- The namespaces in scope by prefix, the latest declaration first; the default namespace
has the empty prefix, and an empty namespace is none. -/
abbrev Scope := List (List Char × List Char)

/-- The namespace that is bound to `xml`. -/
def xmlSpace : List Char := "http://www.w3.org/XML/1998/namespace".toList

/-- The namespace of declarations of namespaces. -/
def xmlnsSpace : List Char := "http://www.w3.org/2000/xmlns/".toList

namespace Scope

/-- The scope outside the root. -/
def initial : Scope :=
  [("xml".toList, xmlSpace)]

/-- The namespace of a prefix. -/
def space? (s : Scope) (p : List Char) : Option (List Char) :=
  (s.lookup p).filter (· ≠ [])

/-- What is wrong with a declaration of a namespace, if anything: a prefix must have one,
and what is reserved must stay as it is. -/
def refusal? (separator : Char) (p uri : List Char) : Option Malformed :=
  if uri = [] && p ≠ [] then some .undeclaredPrefix
  else if p = "xmlns".toList then some .reservedXmlns
  else if separator ∈ uri then some .wrongSyntax
  else if p = "xml".toList then if uri = xmlSpace then none else some .reservedXml
  else if uri = xmlSpace || uri = xmlnsSpace then some .reservedNamespace
  else none

end Scope

/-- The prefix of a name and its local part, if a colon divides it. -/
def splitName? (name : List Char) : Option (List Char × List Char) :=
  match name.span (· ≠ ':') with
  | (p, _ :: localPart) => some (p, localPart)
  | _ => none

/-- The prefix that an attribute of a name declares, if it declares one. -/
def declaredPrefix? (name : List Char) : Option (List Char) :=
  if name = "xmlns".toList then some []
  else
    match splitName? name with
    | some (p, localPart) => if p = "xmlns".toList then some localPart else none
    | none => none

/-- The parts of a tag that are known while its attributes are read. -/
structure Held where
  /-- The names of the attributes so far, the latest first. -/
  names : List (List Char) := []
  /-- The attributes so far, other than declarations of namespaces. -/
  given : List (List Char × List Char) := []
  /-- The namespaces in scope. -/
  scope : Scope
  /-- The declarations of namespaces so far, the latest first. -/
  declared : List (List Char × List Char) := []
  /-- The octets of replacement texts read. -/
  spent : Nat

namespace Held

/-- The parts with one more attribute, which may declare a namespace; trouble with it is
found at `start`. -/
def add (h : Held) (separator : Option Char) (name value start : List Char) :
    Except Failure Held :=
  let h := { h with names := name :: h.names }
  match separator.bind fun s => (declaredPrefix? name).map fun p => (s, p) with
  | some (s, p) =>
    match Scope.refusal? s p value with
    | some cause => .error (cause, start)
    | none => .ok { h with scope := (p, value) :: h.scope, declared := (p, value) :: h.declared }
  | none => .ok { h with given := (name, value) :: h.given }

/-- The parts with one more attribute as it stands in a tag of an element that begins at
`start`. -/
def read (m : Medium) (d : Declarations) (opened : List (List Char)) (separator : Option Char)
    (direct : Option Nat) (element start : List Char) (h : Held) (a : RawAttribute) :
    Except Failure Held :=
  if a.name ∈ h.names then .error (.duplicateAttribute, a.here)
  else
    let isPlain := (d.attributes.find? fun b => b.element = element && b.name = a.name).all
      (·.isPlain)
    match attributeValue m d opened isPlain direct h.spent a.value with
    | .error t => .error (placed t a.value a.inside start)
    | .ok (value, spent) => { h with spent := spent }.add separator a.name value start

/-- The parts with the attributes of a tag. -/
def readAll (m : Medium) (d : Declarations) (opened : List (List Char)) (separator : Option Char)
    (direct : Option Nat) (element start : List Char) (h : Held) :
    List RawAttribute → Except Failure Held
  | [] => .ok h
  | a :: as' => do
    let h ← h.read m d opened separator direct element start a
    h.readAll m d opened separator direct element start as'

/-- The parts with the default values of attributes that are not given. -/
def addDefaults (separator : Option Char) (start : List Char) (h : Held) :
    List AttributeDeclaration → Except Failure Held
  | [] => .ok h
  | b :: bs =>
    match b.value with
    | some value =>
      if b.name ∈ h.names then h.addDefaults separator start bs
      else do
        let h ← h.add separator b.name value start
        h.addDefaults separator start bs
    | none => h.addDefaults separator start bs

end Held

/-- The label of a name; a name without a prefix is in the given namespace. -/
def labelOf (scope : Scope) (space : Option (List Char)) (name start : List Char) :
    Except Failure Label :=
  match splitName? name with
  | some (p, localPart) =>
    match scope.space? p with
    | some uri => .ok ⟨String.ofList name, some (String.ofList uri), String.ofList localPart⟩
    | none => .error (.unboundPrefix, start)
  | none => .ok ⟨String.ofList name, space.map String.ofList, String.ofList name⟩

/-- The label of a name that is not taken apart. -/
def wholeLabel (name : List Char) : Label :=
  ⟨String.ofList name, none, String.ofList name⟩

/-- The labels of attributes with their values.  No two attributes with prefixes have the
same namespace and local part. -/
def labelsOf (scope : Scope) (start : List Char) (seen : List Label) :
    List (List Char × List Char) → Except Failure (List (Label × String))
  | [] => .ok []
  | (name, value) :: rest => do
    let l ← labelOf scope none name start
    if l.space.isSome && seen.any (fun k => k.space = l.space && k.localPart = l.localPart) then
      .error (.duplicateAttribute, start)
    else
      let others ← labelsOf scope start (l :: seen) rest
      .ok ((l, String.ofList value) :: others)

/-- The tag of an element from its parts, those of its attributes that are `given` and
`all` of them. -/
def tagOf (separator : Option Char) (name start : List Char) (given : Nat) (h : Held) :
    Except Failure Tag := do
  let attributes := h.given.reverse
  let declared := h.declared.reverse.map fun (p, uri) =>
    ((nonempty? (some (String.ofList p))), nonempty? (some (String.ofList uri)))
  match separator with
  | none =>
    let labels := attributes.map fun (n, v) => (wholeLabel n, String.ofList v)
    .ok ⟨wholeLabel name, labels.take given, labels.drop given, declared⟩
  | some _ =>
    let labels ← labelsOf h.scope start [] attributes
    let label ← labelOf h.scope (h.scope.space? []) name start
    .ok ⟨label, labels.take given, labels.drop given, declared⟩

/-- The start tag of an element that begins at `start`, the namespaces in scope inside it,
and the octets of replacement texts read, where the entities of `opened` are being replaced
around it. -/
def resolveTag (m : Medium) (d : Declarations) (opened : List (List Char))
    (separator : Option Char) (direct : Option Nat) (start : List Char) (scope : Scope)
    (spent : Nat) (t : RawTag) : Except Failure (Tag × Scope × Nat) := do
  let h ← Held.readAll m d opened separator direct t.name start ⟨[], [], scope, [], spent⟩
    t.attributes
  let all ← h.addDefaults separator start (d.attributesOf t.name)
  let tag ← tagOf separator t.name start h.given.length all
  .ok (tag, all.scope, all.spent)

end Reading

end XmlDraft
