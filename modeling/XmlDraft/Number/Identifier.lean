import XmlDraft.Text.Digits

/-!
# Universal identifiers

Identifiers of 128 bits, written as 32 hexadecimal digits in five groups.  Reading one
passes over the marks that may surround or divide the digits.
-/

namespace XmlDraft

/-- An identifier of 128 bits, as its 32 hexadecimal digits in lower case. -/
structure Identifier where
  /-- The digits. -/
  digits : List Char
deriving DecidableEq, Repr

namespace Identifier

/-- Removes every occurrence of a word, from left to right. -/
def without (word : List Char) : Nat → List Char → List Char
  | 0, cs => cs
  | _, [] => []
  | fuel + 1, c :: cs =>
    if word.isPrefixOf (c :: cs) then without word fuel ((c :: cs).drop word.length)
    else c :: without word fuel cs

/-- Reads an identifier; braces, hyphens and the words of its resource name are passed
over. -/
def ofText? (s : String) : Option Identifier :=
  let cs := s.toList
  let cs := without "urn:".toList cs.length cs
  let cs := without "uuid:".toList cs.length cs
  let braced := fun c : Char => c = '\x7b' || c = '\x7d'
  let cs := ((cs.dropWhile braced).reverse.dropWhile braced).reverse
  let ds := cs.filter (· ≠ '-')
  if ds.length = 32 && ds.all (fun c => (Text.digitValue? c).isSome) then
    some ⟨ds.map Char.toLower⟩
  else none

/-- The digits in groups of eight, four, four, four and twelve. -/
def text (u : Identifier) : String :=
  let ds := u.digits
  String.ofList <|
    ds.take 8 ++ '-' :: (ds.drop 8).take 4 ++ '-' :: (ds.drop 12).take 4
      ++ '-' :: (ds.drop 16).take 4 ++ '-' :: ds.drop 20

end Identifier

end XmlDraft
