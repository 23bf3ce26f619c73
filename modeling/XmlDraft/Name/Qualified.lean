/-!
# Qualified names

A qualified name is a local part that is not empty, and a namespace or none.  In
Clark notation the namespace stands in braces before the local part.  An empty
namespace counts as none wherever a name is read or moved.  A local part may be a
member of an enumeration of texts; it counts by its characters, but is printed under
the name of the member.
-/

namespace XmlDraft

/-- The name of an element: its local part and its namespace, if it has one. -/
structure QName where
  /-- The local part. -/
  localPart : String
  /-- The namespace, if any. -/
  space : Option String := none
  /-- The local part is not empty. -/
  localPart_ne : localPart ≠ ""
  /-- The printed form of the local part, where it is a member of an enumeration. -/
  member : Option String := none
deriving DecidableEq

/-- A namespace, where the empty text stands for none. -/
def nonempty? (s : Option String) : Option String :=
  s.filter (· ≠ "")

namespace QName

/-- The name of a local part and a namespace; there is none when the local part is
empty. -/
def of? (localPart : String) (space : Option String) (member : Option String := none) :
    Option QName :=
  if h : localPart ≠ "" then some ⟨localPart, space, h, member⟩ else none

/-- The printed form of the local part. -/
def printed (q : QName) : String :=
  q.member.getD q.localPart

/-- Whether two names have the same local part and the same namespace. -/
def same (q r : QName) : Bool :=
  q.localPart = r.localPart && q.space = r.space

/-- The same local part in another namespace. -/
def inSpace (q : QName) (space : Option String) : QName :=
  { q with space := nonempty? space }

/-- Clark notation: the namespace in braces, if there is one that is not empty, and
the printed local part; without a namespace it is the local part itself. -/
def clark (q : QName) : String :=
  match nonempty? q.space with
  | some uri => "\x7b" ++ uri ++ "\x7d" ++ q.printed
  | none => q.localPart

/-- Reads Clark notation; a text that does not begin with a brace is a local part.
There is no name when the local part is empty. -/
def ofClark? (text : String) : Option QName :=
  match text.toList with
  | '\x7b' :: rest =>
    let uri := rest.takeWhile (· ≠ '\x7d')
    let localPart := (rest.dropWhile (· ≠ '\x7d')).drop 1
    of? (String.ofList localPart) (nonempty? (some (String.ofList uri)))
  | _ => of? text none

/-- A tag selects an element by its Clark notation or by its local part. -/
def matchesTag (q : QName) (tag : String) : Bool :=
  tag = q.clark || tag = q.localPart

end QName

end XmlDraft
