import XmlDraft.Fault
import XmlDraft.Value.Basic

/-!
# Members of a builder

What a name stands for when it is looked up on a builder: one of its operations, something
else that it has, nothing at all, or an element that a call builds.  Names that displays and
protocols look for are never elements.
-/

namespace XmlDraft

/-- An operation of a builder. -/
inductive Operation where
  | tag
  | comment
  | cdata
  | text
  | declaration
  | doctype
deriving DecidableEq, Repr

/-- What a name stands for. -/
inductive Member where
  | operation (o : Operation)
  /-- Something that the builder has and that no step calls. -/
  | fixture
  /-- The name of the encoding, or an element where it cannot be told. -/
  | encoding
  /-- An element of that name. -/
  | element
  | absent
deriving DecidableEq, Repr

namespace Operation

/-- The operation of a name. -/
def ofName? (name : String) : Option Operation :=
  if name = "Tag" then some tag
  else if name = "Comment" then some comment
  else if name = "CData" then some cdata
  else if name = "Text" then some text
  else if name = "Declaration" then some declaration
  else if name = "DocumentType" then some doctype
  else none

/-- The names of the arguments of an operation, in order; those of a tag have none. -/
def places : Operation → List String
  | tag => []
  | comment => ["text"]
  | cdata => ["text"]
  | text => ["text"]
  | declaration => ["version", "encoding", "standalone"]
  | doctype => ["name", "public_id", "system_id", "internal_subset"]

/-- The number of arguments that must be given. -/
def needed : Operation → Nat
  | declaration => 0
  | _ => 1

/-- The values of the arguments of an operation in order, where each is given by position
or by name, once. -/
def bind (o : Operation) (arguments : List Value) (named : List (String × Value)) :
    Except Fault (List Value) :=
  let ps := o.places
  let byPosition := ps.take arguments.length
  if ps.length < arguments.length then .error .badCall
  else if named.any fun a => a.1 ∈ byPosition || a.1 ∉ ps then .error .badCall
  else if (ps.take o.needed).any fun p => p ∉ byPosition && (named.lookup p).isNone then
    .error .badCall
  else .ok (arguments ++ (ps.drop arguments.length).map fun p => (named.lookup p).getD .none)

end Operation

namespace Member

/-- The names of what a builder has for its own use. -/
def privateNames : List String :=
  ["config", "document", "context", "logger", "writer"]

/-- The names of what a builder has besides its operations. -/
def fixtureNames : List String :=
  ["from_document", "fragment", "fragment_with_builder", "build", "writer", "to_string",
    "to_bytes", "to_document", "to_element", "to_node", "to_lxml", "to_lxml_element",
    "to_lxml_node", "to_etree", "to_etree_element", "to_minidom", "to_minidom_node",
    "to_minidom_element"]

/-- The names between double underscores that every object has. -/
def protocolNames : List String :=
  ["bytes", "class", "delattr", "dict", "dir", "doc", "eq", "format", "ge", "getattr",
    "getattribute", "getstate", "gt", "hash", "init", "init_subclass", "le", "lt", "module",
    "ne", "new", "reduce", "reduce_ex", "repr", "setattr", "sizeof", "str", "subclasshook",
    "weakref"]

/-- What a name stands for. -/
def ofName (name : String) : Member :=
  match Operation.ofName? name with
  | some o => .operation o
  | none =>
    let cs := name.toList
    let starts := fun (s : String) => s.toList.isPrefixOf cs
    if name = "encoding" then .encoding
    else if name ∈ fixtureNames then .fixture
    else if name ∈ protocolNames.map fun s => "__" ++ s ++ "__" then .fixture
    else if name ∈ privateNames.map fun s => "_Xml__" ++ s then .fixture
    else if starts "__" && "__".toList.isSuffixOf cs then .absent
    else if starts "_Xml__" || starts "_repr_" || starts "_ipython_" then .absent
    else .element

end Member

end XmlDraft
