import XmlDraft.Reading.Letters
import XmlDraft.Reading.Malformed

/-!
# Scanning

The pieces of which markup consists: names, references, comments, processing
instructions, CDATA openings and tags.  A scanner takes the characters from some place on
and gives what it found together with the characters that follow; how far it came is
known from the latter.  Where it cannot go on it says at which characters, or that the
source ended too early.
-/

namespace XmlDraft

namespace Reading

/-- Texts are equal just if they are compared as equal.  The instance has a name, so that it is the
same one wherever a text is looked for among others. -/
instance lawfulText : LawfulBEq (List Char) :=
  inferInstance

/-- How the characters of a source end. -/
inductive Ending where
  /-- Nothing follows them. -/
  | clean
  /-- A single octet follows where each unit has two. -/
  | ragged
  /-- An octet follows that begins no character. -/
  | malformed
  /-- Octets follow of which the first could begin a character, but they write none. -/
  | broken
  /-- The first octets of a character follow, and then nothing. -/
  | truncated
deriving DecidableEq, Repr

/-- The number of octets of a character in UTF-8. -/
def utf8Width (c : Char) : Nat :=
  if c.toNat < 0x80 then 1 else if c.toNat < 0x800 then 2 else if c.toNat < 0x10000 then 3 else 4

/-- The number of octets of characters, given that of each. -/
def totalWidth (width : Char → Nat) : List Char → Nat
  | [] => 0
  | c :: cs => width c + totalWidth width cs

/-- The medium in which markup is written: how it classifies characters, how they end, and
how many octets they take. -/
structure Medium where
  /-- The classes of characters. -/
  alphabet : Alphabet := {}
  /-- What follows the last character. -/
  ending : Ending := .clean
  /-- The number of octets that follow the last character. -/
  spare : Nat := 0
  /-- The number of octets of a character. -/
  width : Char → Nat := utf8Width
  /-- The least number of octets of a character. -/
  unit : Nat := 1
  /-- Whether a carriage return ends a line, alone and together with a line feed; otherwise it
  is a blank like any other. -/
  unifies : Bool := true

/-- Why a scanner cannot go on. -/
inductive Lapse where
  /-- The characters that follow fit nothing. -/
  | invalid (rest : List Char)
  /-- The source ends inside a piece. -/
  | unclosed
  /-- The source ends inside a character. -/
  | partialCharacter
deriving DecidableEq, Repr

/-- What a scanner found, and what follows it. -/
abbrev Found (α : Type) := α × List Char

namespace Medium

/-- The lapse at the end of the characters.  Where any character may follow, a truncated
one is reported as such; where only certain ones may, it is invalid. -/
def stop (m : Medium) (anyMayFollow : Bool) : Lapse :=
  match m.ending with
  | .clean => .unclosed
  | .ragged => .unclosed
  | .malformed => .invalid []
  | .broken => .invalid []
  | .truncated => if anyMayFollow then .partialCharacter else .invalid []

/-! ### Names -/

/-- The characters of a name after the first, without a colon where it divides names. -/
def innerName (m : Medium) : List Char → Except Lapse (Found (List Char))
  | [] => .error (m.stop true)
  | c :: cs =>
    if m.alphabet.isInner c then do
      let (ds, rest) ← innerName m cs
      .ok (c :: ds, rest)
    else .ok ([], c :: cs)

/-- The first character of a name. -/
def nameStart (m : Medium) : List Char → Except Lapse (Found Char)
  | [] => .error (m.stop true)
  | c :: cs => if m.alphabet.isStart c then .ok (c, cs) else .error (.invalid (c :: cs))

/-- A name without a dividing colon. -/
def plainName (m : Medium) (cs : List Char) : Except Lapse (Found (List Char)) := do
  let (c, rest) ← m.nameStart cs
  let (ds, rest) ← m.innerName rest
  .ok (c :: ds, rest)

/-- A name in which one colon may divide a prefix from a local part, where colons divide
names at all. -/
def qualifiedName (m : Medium) (cs : List Char) : Except Lapse (Found (List Char)) := do
  let (name, rest) ← m.plainName cs
  match rest with
  | ':' :: more =>
    let (localPart, rest) ← m.plainName more
    match rest with
    | ':' :: _ => .error (.invalid rest)
    | _ => .ok (name ++ ':' :: localPart, rest)
  | _ => .ok (name, rest)

/-- The characters of the name of an end tag after the first, with any colons. -/
def endNameRest (m : Medium) : List Char → Except Lapse (Found (List Char))
  | [] => .error (m.stop true)
  | c :: cs =>
    if m.alphabet.isInner c || c = ':' then do
      let (ds, rest) ← endNameRest m cs
      .ok (c :: ds, rest)
    else .ok ([], c :: cs)

end Medium

/-! ### References -/

/-- A reference, by the name of an entity or by the number of a character; not every
number has a character. -/
inductive Reference where
  | named (name : List Char)
  | numbered (c : Option Char)
deriving DecidableEq, Repr

/-- The character of a number, if it has one that may stand in a document. -/
def charOfNumber? (n : Nat) : Option Char :=
  if h : n.isValidChar then
    let c : Char := ⟨n.toUInt32, by
      have : n < 4294967296 := by rcases h with h | h <;> omega
      simpa [UInt32.isValidChar, Nat.toUInt32, UInt32.toNat_ofNat, Nat.mod_eq_of_lt this] using h⟩
    if isXmlChar c then some c else none
  else none

namespace Medium

/-- The digits of a reference by number up to its semicolon. -/
def digitsToSemicolon (m : Medium) (isDigit : Char → Bool) :
    List Char → Except Lapse (Found (List Char))
  | [] => .error (m.stop false)
  | c :: cs =>
    if isDigit c then do
      let (ds, rest) ← digitsToSemicolon m isDigit cs
      .ok (c :: ds, rest)
    else if c = ';' then .ok ([], cs)
    else .error (.invalid (c :: cs))

/-- The number of a reference in a base, at least one digit of which must be there. -/
def referenceNumber (m : Medium) (base : Nat) (isDigit : Char → Bool) (cs : List Char) :
    Except Lapse (Found Reference) :=
  match cs with
  | [] => .error (m.stop false)
  | c :: _ =>
    if isDigit c then do
      let (ds, rest) ← m.digitsToSemicolon isDigit cs
      .ok (.numbered (charOfNumber? (Text.ofDigits base ds)), rest)
    else .error (.invalid cs)

/-- A reference whose ampersand has been read. -/
def reference (m : Medium) (cs : List Char) : Except Lapse (Found Reference) :=
  match cs with
  | '#' :: 'x' :: more => m.referenceNumber 16 (fun c => (Text.digitValue? c).isSome) more
  | '#' :: more => m.referenceNumber 10 Text.isDigit more
  | _ => do
    let (name, rest) ← m.plainName cs
    match rest with
    | ';' :: rest => .ok (.named name, rest)
    | _ => .error (.invalid rest)

/-! ### Comments, instructions, CDATA -/

/-- The text of a comment up to its end. -/
def commentBody (m : Medium) : List Char → Except Lapse (Found (List Char))
  | [] => .error (m.stop true)
  | '-' :: cs =>
    match cs with
    | '-' :: '>' :: rest => .ok ([], rest)
    | ['-'] => .error (m.stop false)
    | '-' :: rest => .error (.invalid rest)
    | _ => do
      let (ds, rest) ← commentBody m cs
      .ok ('-' :: ds, rest)
  | c :: cs =>
    if isXmlChar c then do
      let (ds, rest) ← commentBody m cs
      .ok (c :: ds, rest)
    else .error (.invalid (c :: cs))

/-- A comment of which the first hyphen has been read. -/
def comment (m : Medium) (cs : List Char) : Except Lapse (Found (List Char)) :=
  match cs with
  | '-' :: rest => m.commentBody rest
  | [] => .error (m.stop false)
  | _ => .error (.invalid cs)

/-- The text of an instruction up to its end. -/
def instructionBody (m : Medium) : List Char → Except Lapse (Found (List Char))
  | [] => .error (m.stop true)
  | '?' :: cs =>
    match cs with
    | '>' :: rest => .ok ([], rest)
    | _ => do
      let (ds, rest) ← instructionBody m cs
      .ok ('?' :: ds, rest)
  | c :: cs =>
    if isXmlChar c then do
      let (ds, rest) ← instructionBody m cs
      .ok (c :: ds, rest)
    else .error (.invalid (c :: cs))

/-- Whether a target is the reserved one in some letter case. -/
def isReserved (target : List Char) : Bool :=
  target.map Char.toLower = ['x', 'm', 'l']

/-- A processing instruction whose opening has been read: its target and its text, with
the blanks before it.  The reserved target is taken in lower case only, where it makes a
declaration. -/
def instruction (m : Medium) (cs : List Char) : Except Lapse (Found (List Char × List Char)) := do
  let (target, rest) ← m.plainName cs
  let allowed := !isReserved target || target = ['x', 'm', 'l']
  match rest with
  | '?' :: more =>
    if !allowed then .error (.invalid rest)
    else
      match more with
      | '>' :: rest => .ok ((target, []), rest)
      | [] => .error (m.stop false)
      | _ => .error (.invalid more)
  | c :: _ =>
    if isBlank c && allowed then
      let (text, rest) ← m.instructionBody rest
      .ok ((target, text), rest)
    else .error (.invalid rest)
  | [] => .error (m.stop true)

/-- The rest of an opening that must be read character by character. -/
def expected : List Char → List Char → Except Lapse (Found Unit)
  | [], cs => .ok ((), cs)
  | _ :: _, [] => .error (.invalid [])
  | w :: ws, c :: cs => if w = c then expected ws cs else .error (.invalid (c :: cs))

/-- The opening of a CDATA section after its first bracket; six units must be left. -/
def cdataOpening (m : Medium) (cs : List Char) : Except Lapse (Found Unit) :=
  let left := totalWidth m.width (cs.take 6) + (if cs.length < 6 then m.spare else 0)
  if left < 6 * m.unit then .error .unclosed else expected "CDATA[".toList cs

end Medium

/-! ### Tags -/

/-- An attribute as it stands in a tag: its name and its value between the quotes, with
the characters that follow from the name on and from the value on. -/
structure RawAttribute where
  /-- The name. -/
  name : List Char
  /-- The value, not yet normalised. -/
  value : List Char
  /-- The characters from the name on. -/
  here : List Char
  /-- The characters from the value on. -/
  inside : List Char

/-- A start tag, or the tag of an empty element. -/
structure RawTag where
  /-- The name. -/
  name : List Char
  /-- The attributes. -/
  attributes : List RawAttribute
  /-- Whether the element ends with the tag. -/
  isEmpty : Bool

namespace Medium

/-- The value of an attribute up to the quote that closes it.  References are checked
where they begin; their characters then pass as characters of the value. -/
def valueBody (m : Medium) (quote : Char) : List Char → Except Lapse (Found (List Char))
  | [] => .error (m.stop true)
  | c :: cs =>
    if c = quote then .ok ([], cs)
    else if c = '<' || !isXmlChar c then .error (.invalid (c :: cs))
    else do
      if c = '&' then
        let _ ← m.reference cs
      let (ds, rest) ← valueBody m quote cs
      .ok (c :: ds, rest)

/-- The equals sign after the name of an attribute, with blanks around it, and the quote
that opens the value. -/
def equalsQuote (m : Medium) (cs : List Char) : Except Lapse (Found Char) :=
  match cs.dropWhile isBlank with
  | [] => .error (m.stop false)
  | '=' :: more =>
    match more.dropWhile isBlank with
    | [] => .error (m.stop false)
    | q :: rest => if q = '"' || q = '\'' then .ok (q, rest) else .error (.invalid (q :: rest))
  | rest => .error (.invalid rest)

/-- An attribute. -/
def tagAttribute (m : Medium) (cs : List Char) : Except Lapse (Found RawAttribute) := do
  let (name, rest) ← m.qualifiedName cs
  let (quote, inside) ← m.equalsQuote rest
  let (value, rest) ← m.valueBody quote inside
  .ok (⟨name, value, cs, inside⟩, rest)

/-- The attributes and the end of a tag after its name or an attribute; `fuel` bounds the
number of attributes.  An attribute must follow a blank. -/
def tagRest (m : Medium) (first : Bool) :
    Nat → List Char → Except Lapse (Found (List RawAttribute × Bool))
  | 0, cs => .error (.invalid cs)
  | fuel + 1, cs =>
    match cs with
    | [] => .error (m.stop first)
    | '>' :: rest => .ok (([], false), rest)
    | '/' :: more =>
      match more with
      | '>' :: rest => .ok (([], true), rest)
      | [] => .error (m.stop false)
      | _ => .error (.invalid more)
    | c :: _ =>
      if isBlank c then
        match cs.dropWhile isBlank with
        | [] => .error (m.stop true)
        | '>' :: rest => .ok (([], false), rest)
        | '/' :: more =>
          match more with
          | '>' :: rest => .ok (([], true), rest)
          | [] => .error (m.stop false)
          | _ => .error (.invalid more)
        | more => do
          let (a, rest) ← m.tagAttribute more
          let ((others, isEmpty), rest) ← tagRest m false fuel rest
          .ok ((a :: others, isEmpty), rest)
      else .error (.invalid cs)

/-- A start tag whose opening has been read. -/
def startTag (m : Medium) (cs : List Char) : Except Lapse (Found RawTag) := do
  let (name, rest) ← m.qualifiedName cs
  let ((attributes, isEmpty), rest) ← m.tagRest true (rest.length + 1) rest
  .ok (⟨name, attributes, isEmpty⟩, rest)

/-- The name of an end tag whose opening has been read, up to the end of the tag. -/
def endTag (m : Medium) (cs : List Char) : Except Lapse (Found (List Char)) := do
  let (c, rest) ← m.nameStart cs
  let (ds, rest) ← m.endNameRest rest
  match rest with
  | '>' :: rest => .ok (c :: ds, rest)
  | b :: _ =>
    if isBlank b then
      match rest.dropWhile isBlank with
      | '>' :: rest => .ok (c :: ds, rest)
      | [] => .error (m.stop false)
      | more => .error (.invalid more)
    else .error (.invalid rest)
  | [] => .error (m.stop true)

end Medium

end Reading

end XmlDraft
