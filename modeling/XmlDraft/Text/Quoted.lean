import XmlDraft.Text.Digits
import XmlDraft.Text.Printable

/-!
# Quoted text

The quoted form in which messages and containers show a text or octets: between
single quotes, or between double quotes when the text holds a single quote and no
double one; the quote in use, the backslash and whatever does not print are written
as escapes.
-/

namespace XmlDraft

namespace Text

/-- The quote around a text: single, unless the text holds single quotes only. -/
def quoteOf (cs : List Char) : Char :=
  if cs.contains '\'' && !cs.contains '"' then '"' else '\''

/-- The escape of a number as a backslash, a letter, and hexadecimal digits filled up
to a width. -/
def numericEscape (letter : Char) (width n : Nat) : List Char :=
  '\\' :: letter :: padZeros width (hexDigits n)

/-- One character of a quoted text. -/
def quotedChar (quote c : Char) : List Char :=
  if c = quote || c = '\\' then ['\\', c]
  else if c = '\t' then ['\\', 't']
  else if c = '\n' then ['\\', 'n']
  else if c = '\r' then ['\\', 'r']
  else if isPrintable c then [c]
  else if c.toNat < 0x100 then numericEscape 'x' 2 c.toNat
  else if c.toNat < 0x10000 then numericEscape 'u' 4 c.toNat
  else numericEscape 'U' 8 c.toNat

/-- The quoted form of a text. -/
def quoted (s : String) : String :=
  let cs := s.toList
  let quote := quoteOf cs
  String.ofList (quote :: cs.flatMap (quotedChar quote) ++ [quote])

/-- One octet of quoted octets: as its ASCII character when it prints. -/
def quotedOctet (quote : Char) (o : UInt8) : List Char :=
  if o < 0x7F then quotedChar quote (Char.ofNat o.toNat)
  else numericEscape 'x' 2 o.toNat

/-- The quoted form of octets, with the letter `b` in front. -/
def quotedOctets (os : List UInt8) : String :=
  let quote := quoteOf (os.map fun o => Char.ofNat o.toNat)
  String.ofList ('b' :: quote :: os.flatMap (quotedOctet quote) ++ [quote])

/-- Items with a separator between each two. -/
def joined (separator : String) (items : List String) : String :=
  separator.intercalate items

end Text

end XmlDraft
