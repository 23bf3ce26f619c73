import XmlDraft.Reading.Event

/-!
# Headings

The declaration at the head of a source: its version, then perhaps its encoding, then
perhaps whether the document stands alone.  What is wrong with a declaration is found at
characters of its text.
-/

namespace XmlDraft

namespace Reading

/-- A declaration as it is read, with the characters from the name of the encoding on. -/
structure Heading where
  /-- The version. -/
  version : List Char
  /-- The name of the encoding, and the characters from it on. -/
  encoding : Option (List Char × List Char) := none
  /-- Whether the document stands alone, if that is said. -/
  standalone : Option Bool := none
deriving DecidableEq, Repr

/-- One part of a declaration: its name and its value, with the characters from each on. -/
structure HeadingPart where
  /-- The name. -/
  name : List Char
  /-- The characters from the name on. -/
  here : List Char
  /-- The value. -/
  value : List Char
  /-- The characters from the value on. -/
  inside : List Char

namespace HeadingPart

/-- A character that may stand in the value of a part. -/
def isValueChar (c : Char) : Bool :=
  isAsciiLetter c || Text.isDigit c || c = '.' || c = '-' || c = '_'

/-- A character that may stand in the name of a part. -/
def isNameChar (c : Char) : Bool :=
  c.toNat < 0x80 && c ≠ '=' && !isBlank c

/-- The value of a part after the equals sign, and what follows it. -/
def readValue (name here cs : List Char) : Except (List Char) (HeadingPart × List Char) :=
  match cs.dropWhile isBlank with
  | [] => .error []
  | quote :: inside =>
    if quote ≠ '"' && quote ≠ '\'' then .error (quote :: inside)
    else
      let value := inside.takeWhile isValueChar
      match inside.dropWhile isValueChar with
      | c :: rest =>
        if c = quote then .ok (⟨name, here, value, inside⟩, rest) else .error (c :: rest)
      | [] => .error []

/-- The next part, if there is one, and what follows it. -/
def read (cs : List Char) : Except (List Char) (Option (HeadingPart × List Char)) :=
  match cs with
  | [] => .ok none
  | c :: _ =>
    if !isBlank c then .error cs
    else
      match cs.dropWhile isBlank with
      | [] => .ok none
      | here =>
        let name := here.takeWhile isNameChar
        match (here.dropWhile isNameChar).dropWhile isBlank with
        | '=' :: more =>
          if name = [] then .error ('=' :: more) else (readValue name here more).map some
        | more =>
          .error more

end HeadingPart

namespace Heading

/-- The declaration that ends after a part for standing alone, if nothing but blanks
follows. -/
def closeStandalone (h : Heading) (p : HeadingPart) (rest : List Char) :
    Except (List Char) Heading :=
  if p.name ≠ "standalone".toList then .error p.here
  else if p.value ≠ "yes".toList && p.value ≠ "no".toList then .error p.inside
  else
    match rest.dropWhile isBlank with
    | [] => .ok { h with standalone := some (p.value = "yes".toList) }
    | more => .error more

/-- The declaration with the parts that follow the one for the encoding. -/
def afterEncoding (h : Heading) (rest : List Char) : Except (List Char) Heading := do
  match ← HeadingPart.read rest with
  | none => .ok h
  | some (p, rest) => h.closeStandalone p rest

/-- The declaration with the parts that follow the version. -/
def afterVersion (h : Heading) (rest : List Char) : Except (List Char) Heading := do
  match ← HeadingPart.read rest with
  | none => .ok h
  | some (p, rest) =>
    if p.name = "encoding".toList then
      if p.value.head?.any isAsciiLetter then
        afterEncoding { h with encoding := some (p.value, p.inside) } rest
      else .error p.inside
    else h.closeStandalone p rest

/-- Reads the text of a declaration after its target. -/
def ofText (cs : List Char) : Except (List Char) Heading := do
  match ← HeadingPart.read cs with
  | none => .error cs
  | some (p, rest) =>
    if p.name = "version".toList then ({ version := p.value } : Heading).afterVersion rest
    else .error p.here

end Heading

end Reading

end XmlDraft
