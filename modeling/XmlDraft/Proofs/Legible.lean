import XmlDraft.Reading.Heading
import XmlDraft.Tree.Node

/-!
# Legible documents

What the strings of a document must be made of so that its markup can be read: the characters
of XML documents everywhere, names of ASCII characters, and a declaration in the words that
declarations have; and no name or comment is a member of an enumeration, which is printed
otherwise than it counts.  All of this is said node by node.
-/

namespace XmlDraft

/-! ### Qualified names -/

namespace QName

theorem of?_eq_some {localPart : String} {space member : Option String} {q : QName}
    (h : of? localPart space member = some q) :
  q.localPart = localPart ∧ q.space = space ∧ q.member = member
  := by
  unfold of? at h
  split at h
  · cases h
    exact ⟨rfl, rfl, rfl⟩
  · cases h

/-- A local part that a name has makes a name in any namespace. -/
theorem of?_localPart {q : QName} (hq : q.member = none) (space : Option String) :
  of? q.localPart space = some { q with space := space }
  := by
  rw [of?, dif_pos q.localPart_ne, ← hq]

/-- A name that is no member of an enumeration is printed as it is. -/
theorem printed_eq {q : QName} (hq : q.member = none) :
  q.printed = q.localPart
  := by
  rw [printed, hq, Option.getD_none]

end QName

/-- A text that is no member of an enumeration is printed as it is. -/
theorem Wording.printed_eq {w : Wording} (hw : w.member = none) :
  w.printed = w.text
  := by
  rw [printed, hw, Option.getD_none]

/-- A field that is no member of an enumeration. -/
def Field.isPlain : Field → Bool
  | .member _ _ => false
  | _ => true

/-! ### Nodes of a tree -/

namespace Node

mutual

/-- The nodes of a tree in document order, the node itself first. -/
def nodes : Node → List Node
  | .element name attributes children => .element name attributes children :: nodesList children
  | .text value => [.text value]
  | .cdata value => [.cdata value]
  | .comment value => [.comment value]
  | .doctype d => [.doctype d]

/-- The nodes of several trees in document order. -/
def nodesList : List Node → List Node
  | [] => []
  | n :: ns => nodes n ++ nodesList ns

end

theorem mem_nodes (n : Node) :
  n ∈ n.nodes
  := by
  cases n <;> simp [nodes]

/-- What holds for the nodes of several trees holds for those of the first one and of the
others. -/
theorem forall_nodesList_cons {P : Node → Prop} {n : Node} {ns : List Node} :
  (∀ m ∈ nodesList (n :: ns), P m) ↔ (∀ m ∈ n.nodes, P m) ∧ ∀ m ∈ nodesList ns, P m
  := by
  rw [nodesList, List.forall_mem_append]

theorem forall_nodes_element {P : Node → Prop} {name : QName} {attributes : Attributes}
    {children : List Node} :
  (∀ m ∈ (element name attributes children).nodes, P m)
    ↔ P (element name attributes children) ∧ ∀ m ∈ nodesList children, P m
  := by
  rw [nodes, List.forall_mem_cons]

theorem nodesList_append (before after : List Node) :
  nodesList (before ++ after) = nodesList before ++ nodesList after
  := by
  induction before with
  | nil => rfl
  | cons n ns ih => simp [nodesList, ih]

theorem mem_nodesList {m : Node} {ns : List Node} :
  m ∈ nodesList ns ↔ ∃ n ∈ ns, m ∈ n.nodes
  := by
  induction ns with
  | nil => simp [nodesList]
  | cons n ns ih => simp [nodesList, ih]

end Node

/-- The nodes of a document in document order. -/
def Document.nodes (d : Document) : List Node :=
  Node.nodesList d.children

/-! ### Strings -/

namespace Name

theorem isInner_of_mem {s : String} (h : isName s) {c : Char} (hc : c ∈ s.toList) :
  isInner c
  := by
  unfold isName at h
  split at h
  · cases h
  · rename_i first others hs
    rw [Bool.and_eq_true, List.all_eq_true] at h
    rw [hs, List.mem_cons] at hc
    rcases hc with rfl | hc
    · rw [isInner, h.1, Bool.true_or]
    · exact h.2 c hc

end Name

/-- The characters that XML 1.0 allows in a document: its production `Char`. -/
def isChar (c : Char) : Bool :=
  let n := c.toNat
  n = 0x9 || n = 0xA || n = 0xD || (0x20 ≤ n && n ≤ 0xD7FF) || (0xE000 ≤ n && n ≤ 0xFFFD)
    || (0x10000 ≤ n && n ≤ 0x10FFFF)

/-- A reader takes just the characters of the production. -/
theorem isXmlChar_eq_isChar (c : Char) :
  Reading.isXmlChar c = isChar c
  := by
  have hvalid : c.toNat < 0xD800 ∨ (0xDFFF < c.toNat ∧ c.toNat < 0x110000) := c.valid
  rw [Bool.eq_iff_iff]
  simp only [Reading.isXmlChar, isChar, Bool.or_eq_true, Bool.and_eq_true, decide_eq_true_eq]
  split
  · simp only [Bool.or_eq_true, decide_eq_true_eq]
    omega
  · simp only [Bool.and_eq_true, decide_eq_true_eq]
    omega

/-- A text of characters that may stand in a document. -/
def isCharText (s : String) : Bool :=
  s.toList.all isChar

/-- A name of ASCII characters. -/
def isAsciiName (s : String) : Bool :=
  Name.isName s && s.toList.all fun c => c.toNat < 0x80

namespace Node

/-- A node whose own strings can be read: its names are ASCII names, and its texts consist of
characters that may stand in a document. -/
def isLegible : Node → Bool
  | .element name attributes _ =>
    isAsciiName name.localPart && name.space.all isCharText
      && attributes.all fun a => isAsciiName a.1 && isCharText a.2
  | .text value => isCharText value
  | .cdata value => isCharText value
  | .comment value => isCharText value.text
  | .doctype _ => true

/-- A node whose name or text is no member of an enumeration. -/
def isPlain : Node → Bool
  | .element name _ _ => name.member.isNone
  | .comment value => value.member.isNone
  | .doctype d => [d.publicId, d.systemId, d.subset].all fun f => f.all Field.isPlain
  | _ => true

/-- The names in the tags of a node: that of an element and those of its attributes. -/
def tagNames : Node → List String
  | .element name attributes _ => name.localPart :: attributes.map Prod.fst
  | _ => []

/-- A node in whose tags no name holds a colon. -/
def isUnprefixed (n : Node) : Bool :=
  n.tagNames.all fun s => ':' ∉ s.toList

/-- A node that holds no carriage return where it would be written as it is. -/
def keepsLines : Node → Bool
  | .cdata value => '\r' ∉ value.toList
  | .comment value => '\r' ∉ value.printed.toList
  | _ => true

/-- A node of a form that calls give to nodes: the attributes of an element have names of their
own, none of which declares a namespace, character data is not empty, a comment ends where it is
ended, and it is no document type, which stands at the top level only. -/
def IsSound : Node → Prop
  | .element _ attributes _ =>
    (attributes.map Prod.fst).Nodup ∧ "xmlns" ∉ attributes.map Prod.fst
  | .text value => value ≠ ""
  | .cdata value => value ≠ ""
  | .comment value => breaksComment value.text.toList = false
  | .doctype _ => False

/-- Whether what stands in the names of a node are names. -/
def isNamed : Node → Bool
  | .element name attributes _ =>
    Name.isName name.localPart && (attributes.map Prod.fst).all Name.isName
  | .doctype d => Name.isName d.name
  | _ => true

/-- A node of a form that calls give to nodes, in no namespace rather than in an empty one, and
with names that were checked, if names are. -/
structure IsMade (checked : Bool) (n : Node) : Prop where
  sound : n.IsSound
  space : n.name?.bind QName.space ≠ some ""
  named : checked → n.isNamed

/-- A node that can be read from its markup. -/
def IsReadable (n : Node) : Prop :=
  (n.isLegible ∧ n.isPlain) ∧ n.IsSound

end Node

namespace Declaration

/-- A word of a declaration: it consists of letters and digits of ASCII, full stops, hyphens and
underscores. -/
def isWord (s : String) : Bool :=
  s.toList.all Reading.HeadingPart.isValueChar

/-- The name of an encoding: a word that begins with a letter, or nothing. -/
def isEncodingName (s : String) : Bool :=
  isWord s && s.toList.head?.all Reading.isAsciiLetter

/-- Whether a declaration says that the document stands alone. -/
def standsAlone (d : Declaration) : Bool :=
  d.standalone.bind Field.text? = some "yes"

/-- A declaration whose fields can be read: its version is a word, its encoding the name of one,
and it says of itself that it stands alone, that it does not, or neither. -/
def isLegible (d : Declaration) : Bool :=
  (d.version.all fun f => f.text?.any isWord)
    && (d.encoding.all fun f => f.text?.any isEncodingName)
    && d.standalone.all fun f => f.text?.any fun s => s = "yes" || s = "no"

end Declaration

namespace Document

/-- A document that can be read from its markup, as far as its strings go. -/
def isLegible (d : Document) : Bool :=
  d.declaration.all Declaration.isLegible && d.nodes.all Node.isLegible

/-- A document in which no name and no comment is a member of an enumeration. -/
def isPlain (d : Document) : Bool :=
  d.nodes.all Node.isPlain

/-- A document whose comments and CDATA sections hold no carriage return. -/
def keepsLines (d : Document) : Bool :=
  d.nodes.all Node.keepsLines

end Document

end XmlDraft
