import XmlDraft.Text.Printable

/-!
# The grammar of names

The names that a builder accepts for elements, attributes and document types: the
`Name` production of XML 1.0, fifth edition.
-/

namespace XmlDraft

namespace Name

open Text (inRanges)

/-- The characters that may begin a name. -/
def startRanges : List (Nat × Nat) :=
  [(0x3A, 0x3A), (0x41, 0x5A), (0x5F, 0x5F), (0x61, 0x7A), (0xC0, 0xD6), (0xD8, 0xF6),
   (0xF8, 0x2FF), (0x370, 0x37D), (0x37F, 0x1FFF), (0x200C, 0x200D), (0x2070, 0x218F),
   (0x2C00, 0x2FEF), (0x3001, 0xD7FF), (0xF900, 0xFDCF), (0xFDF0, 0xFFFD),
   (0x10000, 0xEFFFF)]

/-- The characters that may stand in a name after the first, besides those that may
begin one. -/
def innerRanges : List (Nat × Nat) :=
  [(0x2D, 0x2E), (0x30, 0x39), (0xB7, 0xB7), (0x300, 0x36F), (0x203F, 0x2040)]

/-- A character that may begin a name. -/
def isStart (c : Char) : Bool :=
  inRanges startRanges c.toNat

/-- A character that may stand in a name. -/
def isInner (c : Char) : Bool :=
  isStart c || inRanges innerRanges c.toNat

/-- A text is a name when its first character may begin a name and the others may
stand in one. -/
def isName (s : String) : Bool :=
  match s.toList with
  | [] => false
  | c :: cs => isStart c && cs.all isInner

end Name

end XmlDraft
