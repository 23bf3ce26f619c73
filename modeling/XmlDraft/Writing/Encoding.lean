import XmlDraft.Tree.Node

/-!
# Output encodings

The two encodings of written documents, UTF-8 and UTF-16 with the low octet first and
without a byte order mark, and the choice between them: a declared `utf-16`, in any
letter case, selects the second one and everything else the first.
-/

namespace XmlDraft

/-- An encoding of written documents. -/
inductive OutputEncoding where
  | utf8
  | utf16
deriving DecidableEq, Repr

/-- What can go wrong in rendering: a field of the declaration that is no text, or a field
of the document type that cannot be printed. -/
inductive RenderFault where
  | notText
  | unprintable
deriving DecidableEq, Repr

namespace OutputEncoding

/-- The name of an encoding. -/
def name : OutputEncoding → String
  | utf8 => "utf-8"
  | utf16 => "utf-16"

/-- The octets of a character in UTF-8. -/
def utf8Octets (c : Char) : List UInt8 :=
  let n := c.toNat
  if n < 0x80 then [n.toUInt8]
  else if n < 0x800 then [(0xC0 + n / 0x40).toUInt8, (0x80 + n % 0x40).toUInt8]
  else if n < 0x10000 then
    [(0xE0 + n / 0x1000).toUInt8, (0x80 + n / 0x40 % 0x40).toUInt8, (0x80 + n % 0x40).toUInt8]
  else
    [(0xF0 + n / 0x40000).toUInt8, (0x80 + n / 0x1000 % 0x40).toUInt8,
      (0x80 + n / 0x40 % 0x40).toUInt8, (0x80 + n % 0x40).toUInt8]

/-- The octets of a number below 65536, the low one first. -/
def unitOctets (n : Nat) : List UInt8 :=
  [(n % 0x100).toUInt8, (n / 0x100).toUInt8]

/-- The octets of a character in UTF-16, the low octet of each unit first. -/
def utf16Octets (c : Char) : List UInt8 :=
  let n := c.toNat
  if n < 0x10000 then unitOctets n
  else
    let m := n - 0x10000
    unitOctets (0xD800 + m / 0x400) ++ unitOctets (0xDC00 + m % 0x400)

/-- The octets of a text in an encoding. -/
def encode : OutputEncoding → List Char → List UInt8
  | utf8, cs => cs.flatMap utf8Octets
  | utf16, cs => cs.flatMap utf16Octets

/-- The encoding of a document with a given declaration. -/
def select : Option Declaration → Except RenderFault OutputEncoding
  | some { encoding := some f, .. } =>
    match f.text? with
    | some s => .ok (if s.toList.map Char.toLower = "utf-16".toList then utf16 else utf8)
    | none => if f.counts then .error .notText else .ok utf8
  | _ => .ok utf8

end OutputEncoding

end XmlDraft
