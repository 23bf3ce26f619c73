import XmlDraft.Reading.Entity

/-!
# Events

What a source of markup consists of, one thing after another: the declaration, the parts
of the document type, tags, characters, comments and instructions.  A document is made from
events, and so are the trees of other libraries.
-/

namespace XmlDraft

namespace Reading

/-- A name in a tag: as it is written, and its namespace and local part where namespaces
are told apart. -/
structure Label where
  /-- The name as written. -/
  raw : String
  /-- The namespace, if any. -/
  space : Option String
  /-- The local part. -/
  localPart : String
deriving DecidableEq, Repr

/-- A start tag. -/
structure Tag where
  /-- The name of the element. -/
  name : Label
  /-- The attributes that the tag gives, with their values. -/
  given : List (Label × String)
  /-- The attributes that have default values only. -/
  defaulted : List (Label × String)
  /-- The namespaces that the tag declares, by prefix; the default namespace has none, and
  may be declared to be none. -/
  declared : List (Option String × Option String)
deriving DecidableEq, Repr

/-- An event. -/
inductive Event where
  | declaration (version : String) (encoding : Option String) (standalone : Option Bool)
  /-- The start of a document type, with its identifiers as written. -/
  | doctypeStart (name : String) (systemId publicId : Option String) (hasSubset : Bool)
  | doctypeEnd
  | start (tag : Tag)
  | finish
  | characters (cs : List Char)
  | comment (text : String)
  /-- An instruction: as written, its target, and its data. -/
  | instruction (raw : List Char) (target data : String)
  | cdataStart
  | cdataEnd
  /-- Markup inside the document type, as written. -/
  | plain (raw : List Char)
  /-- A reference to an entity that is not replaced. -/
  | unresolved (name : String)
deriving Repr

/-- The event of an instruction, given its target and its text with leading blanks. -/
def instructionEvent (raw target text : List Char) : Event :=
  .instruction raw (String.ofList target)
    (String.ofList (Text.unifyLines (text.dropWhile isBlank)))

/-- The event of a comment. -/
def commentEvent (text : List Char) : Event :=
  .comment (String.ofList (Text.unifyLines text))

/-- A cause of failure and the characters at which it was found. -/
abbrev Failure := Malformed × List Char

/-- The failure of a lapse in a token that begins at `cs`. -/
def failureOf (l : Lapse) (cs : List Char) : Failure :=
  match l with
  | .invalid rest => (.invalidToken, rest)
  | .unclosed => (.unclosedToken, cs)
  | .partialCharacter => (.partialCharacter, cs)

/-- The failure of trouble inside `value`, which begins at `inside`; trouble without a
place of its own is found at `start`. -/
def placed (t : Trouble) (value inside start : List Char) : Failure :=
  match t.2 with
  | some rest => (t.1, inside.drop (value.length - rest.length))
  | none => (t.1, start)

end Reading

end XmlDraft
