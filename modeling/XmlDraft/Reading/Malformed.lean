import XmlDraft.Text.Digits

/-!
# Malformed markup

What can be wrong with markup, and where: the causes that a reader reports, their
wording, and the position of a fault as a line counted from one and a column counted
from zero.
-/

namespace XmlDraft

/-- A place in a text: its line, counted from one, and its column, counted from zero. -/
structure Position where
  /-- The line. -/
  line : Nat
  /-- The column. -/
  column : Nat
deriving DecidableEq, Repr

namespace Position

/-- The first place of a text. -/
def start : Position := ⟨1, 0⟩

/-- The place after a text that begins at `p`: a line ends at a line feed, at a carriage
return, and at both together. -/
def after (p : Position) : List Char → Position
  | [] => p
  | '\r' :: '\n' :: cs => after ⟨p.line + 1, 0⟩ cs
  | '\r' :: cs => after ⟨p.line + 1, 0⟩ cs
  | '\n' :: cs => after ⟨p.line + 1, 0⟩ cs
  | _ :: cs => after ⟨p.line, p.column + 1⟩ cs

end Position

/-- What is wrong with markup that is not well formed. -/
inductive Malformed where
  | wrongSyntax
  | noElement
  | invalidToken
  | unclosedToken
  | partialCharacter
  | mismatchedTag
  | duplicateAttribute
  | junkAfterRoot
  | illegalParameterReference
  | undefinedEntity
  | recursiveEntity
  | asynchronousEntity
  | invalidCharacterNumber
  | binaryEntity
  | externalEntityInAttribute
  | misplacedDeclaration
  | unknownEncoding
  | incorrectEncoding
  | unclosedCData
  | entityInParameter
  | unboundPrefix
  | undeclaredPrefix
  | incompleteParameter
  | badDeclaration
  | illegalPublicId
  | reservedXml
  | reservedXmlns
  | reservedNamespace
  | amplification
  /-- An entity that is named where only declared ones can be shown. -/
  | undefinedReference (reference : String)
  /-- An element type that is declared twice where each may be declared once. -/
  | repeatedType (name : String)
deriving DecidableEq, Repr

namespace Malformed

/-- The wording of a cause. -/
def message : Malformed → String
  | wrongSyntax => "syntax error"
  | noElement => "no element found"
  | invalidToken => "not well-formed (invalid token)"
  | unclosedToken => "unclosed token"
  | partialCharacter => "partial character"
  | mismatchedTag => "mismatched tag"
  | duplicateAttribute => "duplicate attribute"
  | junkAfterRoot => "junk after document element"
  | illegalParameterReference => "illegal parameter entity reference"
  | undefinedEntity => "undefined entity"
  | recursiveEntity => "recursive entity reference"
  | asynchronousEntity => "asynchronous entity"
  | invalidCharacterNumber => "reference to invalid character number"
  | binaryEntity => "reference to binary entity"
  | externalEntityInAttribute => "reference to external entity in attribute"
  | misplacedDeclaration => "XML or text declaration not at start of entity"
  | unknownEncoding => "unknown encoding"
  | incorrectEncoding => "encoding specified in XML declaration is incorrect"
  | unclosedCData => "unclosed CDATA section"
  | entityInParameter => "entity declared in parameter entity"
  | unboundPrefix => "unbound prefix"
  | undeclaredPrefix => "must not undeclare prefix"
  | incompleteParameter => "incomplete markup in parameter entity"
  | badDeclaration => "XML declaration not well-formed"
  | illegalPublicId => "illegal character(s) in public id"
  | reservedXml =>
    "reserved prefix (xml) must not be undeclared or bound to another namespace name"
  | reservedXmlns => "reserved prefix (xmlns) must not be declared or undeclared"
  | reservedNamespace => "prefix must not be bound to one of the reserved namespace names"
  | amplification =>
    "limit on input amplification factor (from DTD and entities) breached"
  | undefinedReference reference => "undefined entity " ++ reference
  | repeatedType name => "repeated declaration of element type " ++ name

end Malformed

/-- Why a source could not be read. -/
inductive Unreadable where
  /-- The markup is not well formed. -/
  | malformed (cause : Malformed) (position : Position)
  /-- The markup has no root element. -/
  | rootless
  /-- The source declares an encoding of which no table is known. -/
  | noSuchEncoding (name : String)
  /-- The source declares an encoding that does not use one octet for each character. -/
  | wideEncoding (name : String)
  /-- The source declares an encoding that does not decode octets one by one. -/
  | strangeEncoding (name reason : String)
  /-- The source declares an encoding that refuses octets above those of ASCII. -/
  | narrowEncoding (name : String)
deriving DecidableEq, Repr

namespace Unreadable

/-- The wording of a cause and its place, if a line is known. -/
def located (message : String) (line column : Option Int) : String :=
  match line with
  | some l =>
    message ++ " (line " ++ Text.intText l ++ ", column "
      ++ ((column.map Text.intText).getD "None") ++ ")"
  | none => message

/-- The wording of a failure to read. -/
def message : Unreadable → String
  | malformed cause position =>
    located cause.message (some (position.line : Int)) (some (position.column : Int))
  | rootless => "Markup contains no root element"
  | noSuchEncoding name => "unknown encoding: " ++ name
  | wideEncoding _ => "multi-byte encodings are not supported"
  | strangeEncoding name reason =>
    "decoding with '" ++ name ++ "' codec failed (UnicodeError: " ++ reason ++ ")"
  | narrowEncoding _ => "'ascii' codec can't decode byte 0x80 in position 82: ordinal not in range(128)"

end Unreadable

end XmlDraft
