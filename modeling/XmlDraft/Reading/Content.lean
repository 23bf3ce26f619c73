import XmlDraft.Reading.Space
import XmlDraft.Reading.Token

/-!
# Content

What stands inside the root element: tags, character data, references, CDATA sections,
comments and instructions, read one after another while the elements that are open are
kept.  The replacement text of an entity is read as content of its own, in which every
element that it opens must end.
-/

namespace XmlDraft

namespace Reading

/-- What becomes of references to entities in content. -/
inductive Replacement where
  /-- They are replaced where there is a text to put in their place. -/
  | known
  /-- They are replaced, and it is a fault if there is no text to put in their place. -/
  | all
  /-- They stay, but it is a fault if all declarations have been seen and theirs is not
  among them. -/
  | none
deriving DecidableEq, Repr

/-- How a source is read: the character that stands between a namespace and a local part
where names are taken apart, what becomes of references to entities, which edition names
follow, and how often element types may be declared. -/
structure Manner where
  /-- The separator. -/
  separator : Option Char := .none
  /-- What becomes of references. -/
  replacement : Replacement := .known
  /-- Whether names follow the fifth edition. -/
  isFifth : Bool := false
  /-- Whether each element type may be declared once only. -/
  distinctTypes : Bool := false
deriving DecidableEq, Repr

/-- The classes of characters in a manner of reading. -/
def Manner.alphabet (m : Manner) : Alphabet where
  divides := m.separator.isSome
  isFifth := m.isFifth

/-- An element that is open. -/
structure Opened where
  /-- Its name as written. -/
  name : List Char
  /-- The namespaces in scope around it. -/
  outside : Scope

/-- The state of reading content. -/
structure Flow where
  /-- The open elements, the innermost first. -/
  opened : List Opened := []
  /-- The namespaces in scope. -/
  scope : Scope := Scope.initial
  /-- The events, the latest first. -/
  events : List Event := []
  /-- The octets of replacement texts read. -/
  spent : Nat := 0

namespace Flow

/-- The state with one more event. -/
def emit (f : Flow) (e : Event) : Flow :=
  { f with events := e :: f.events }

end Flow

/-- What content is read under: its medium, what has been declared, the manner of reading, the
account of the source, and the elements and entities that are open around it. -/
structure Surroundings where
  /-- The medium of the characters. -/
  medium : Medium
  /-- What has been declared. -/
  declarations : Declarations
  /-- The manner of reading. -/
  manner : Manner
  /-- How much of the source has been read. -/
  account : Account
  /-- The number of elements that are open around the content. -/
  base : Nat
  /-- The entities that are being replaced around the content. -/
  replacing : List (List Char) := []

/-- How a reference to an entity, which begins at given characters, is replaced. -/
abbrev Expanding := List Char → List Char → Flow → Except Failure Flow

/-- The outcome of one step through content: the state, and the characters that follow. -/
abbrev Moved := Except Failure (Flow × List Char)

namespace Surroundings

/-- A token found by a scanner, whose lapse is placed at the start of the token. -/
def scanned {α : Type} (start : List Char) (r : Except Lapse (Found α)) : Except Failure (Found α) :=
  r.mapError fun l => failureOf l start

/-- The failure at the end of the characters, if the content may not end here. -/
def finish (x : Surroundings) (f : Flow) (here : List Char) : Moved :=
  match x.medium.ending with
  | .clean =>
    if x.base = 0 then .error (.noElement, here)
    else if f.opened.length = x.base then .ok (f, [])
    else .error (.asynchronousEntity, here)
  | .ragged => .error (.unclosedToken, here)
  | .malformed => .error (.invalidToken, here)
  | .broken => .error (.invalidToken, here)
  | .truncated => .error (.partialCharacter, here)

/-! ### Tags -/

/-- A start tag whose opening has been read. -/
def startTag (x : Surroundings) (start cs : List Char) (f : Flow) : Moved := do
  let (raw, rest) ← scanned start (x.medium.startTag cs)
  let (tag, scope, spent) ←
    resolveTag x.medium x.declarations x.replacing x.manner.separator (x.account rest) start
      f.scope f.spent raw
  let g := { f with spent := spent }.emit (.start tag)
  if raw.isEmpty then .ok (g.emit .finish, rest)
  else .ok ({ g with opened := ⟨raw.name, f.scope⟩ :: f.opened, scope := scope }, rest)

/-- An end tag whose opening has been read; it must close the innermost element. -/
def endTag (x : Surroundings) (start cs : List Char) (f : Flow) : Moved := do
  let (name, rest) ← scanned start (x.medium.endTag cs)
  match f.opened with
  | [] => .error (.asynchronousEntity, start)
  | o :: others =>
    if f.opened.length = x.base then .error (.asynchronousEntity, start)
    else if o.name ≠ name then .error (.mismatchedTag, cs)
    else .ok ({ f.emit .finish with opened := others, scope := o.outside }, rest)

/-! ### CDATA sections, comments, instructions -/

/-- Whether a character stands in a run of characters inside a CDATA section. -/
def isSectionChar (c : Char) : Bool :=
  isXmlChar c && c ≠ ']' && c ≠ '\r'

/-- The rest of a CDATA section; `fuel` bounds the number of its pieces. -/
def sectionBody (x : Surroundings) : Nat → List Char → Flow → Moved
  | 0, cs, _ => .error (.unclosedCData, cs)
  | fuel + 1, cs, f =>
    match cs with
    | [] =>
      match x.medium.ending with
      | .malformed => .error (.invalidToken, cs)
      | .broken => .error (.invalidToken, cs)
      | .truncated => .error (.partialCharacter, cs)
      | _ => .error (.unclosedCData, cs)
    | ']' :: ']' :: '>' :: rest => .ok (f.emit .cdataEnd, rest)
    | ']' :: more =>
      if (more = [] || more = [']']) && x.medium.endsSoftly then .error (.unclosedCData, cs)
      else sectionBody x fuel more (f.emit (.characters [']']))
    | '\r' :: more =>
      if !x.medium.unifies then sectionBody x fuel more (f.emit (.characters ['\r']))
      else
        match more with
        | '\n' :: more => sectionBody x fuel more (f.emit (.characters ['\n']))
        | more =>
          if more = [] && x.medium.endsSoftly then .error (.unclosedCData, cs)
          else sectionBody x fuel more (f.emit (.characters ['\n']))
    | c :: more =>
      if isSectionChar c then
        let run := more.takeWhile isSectionChar
        sectionBody x fuel (more.dropWhile isSectionChar) (f.emit (.characters (c :: run)))
      else .error (.invalidToken, cs)

/-- What follows an opening bracket and an exclamation mark in content. -/
def declared (x : Surroundings) (start cs : List Char) (f : Flow) : Moved :=
  match cs with
  | '-' :: more => do
    let (text, rest) ← scanned start (x.medium.comment more)
    .ok (f.emit (commentEvent text), rest)
  | '[' :: more => do
    let (_, rest) ← scanned start (x.medium.cdataOpening more)
    x.sectionBody (rest.length + 1) rest (f.emit .cdataStart)
  | [] => .error (failureOf (x.medium.stop false) start)
  | _ => .error (.invalidToken, cs)

/-- An instruction whose opening has been read. -/
def instruction (x : Surroundings) (start cs : List Char) (f : Flow) : Moved := do
  let ((target, text), rest) ← scanned start (x.medium.instruction cs)
  if target = "xml".toList then .error (.misplacedDeclaration, start)
  else
    let raw := start.take (start.length - rest.length)
    .ok (f.emit (instructionEvent raw target text), rest)

/-- What follows an opening bracket in content. -/
def markup (x : Surroundings) (start cs : List Char) (f : Flow) : Moved :=
  match cs with
  | [] => .error (failureOf (x.medium.stop true) start)
  | '!' :: more => x.declared start more f
  | '?' :: more => x.instruction start more f
  | '/' :: more => x.endTag start more f
  | _ => x.startTag start cs f

/-! ### References -/

/-- The state after a reference that stays, if it may stay. -/
def keep (x : Surroundings) (name start : List Char) (f : Flow) : Except Failure Flow :=
  if x.manner.replacement = .all then
    .error (.undefinedReference (String.ofList ('&' :: name ++ [';'])), start)
  else .ok (f.emit (.unresolved (String.ofList name)))

/-- A reference to an entity by name.  One that is not declared is a fault where all
declarations have been seen. -/
def named (x : Surroundings) (expand : Expanding) (name start : List Char) (f : Flow) :
    Except Failure Flow :=
  match predefined? name with
  | some c => .ok (f.emit (.characters [c]))
  | none =>
    match x.declarations.entity? name with
    | none =>
      if x.declarations.isComplete then .error (.undefinedEntity, start)
      else x.keep name start f
    | some .unparsed => .error (.binaryEntity, start)
    | some .external => x.keep name start f
    | some (.internal _) =>
      if x.manner.replacement = .none then x.keep name start f else expand name start f

/-- A reference whose ampersand has been read. -/
def reference (x : Surroundings) (expand : Expanding) (start cs : List Char) (f : Flow) :
    Moved := do
  let (r, rest) ← scanned start (x.medium.reference cs)
  match r with
  | .numbered none => .error (.invalidCharacterNumber, start)
  | .numbered (some c) => .ok (f.emit (.characters [c]), rest)
  | .named name => do
    let g ← x.named expand name start f
    .ok (g, rest)

/-! ### Character data -/

/-- Whether a character stands in a run of character data. -/
def isDataChar (c : Char) : Bool :=
  isXmlChar c && c ≠ '<' && c ≠ '&' && c ≠ '\r' && c ≠ ']'

/-- A step through content that is not at its end. -/
def step (x : Surroundings) (expand : Expanding) (c : Char) (more : List Char) (f : Flow) :
    Moved :=
  match c with
  | '<' => x.markup (c :: more) more f
  | '&' => x.reference expand (c :: more) more f
  | '\r' =>
    if !x.medium.unifies then .ok (f.emit (.characters [c]), more)
    else
      match more with
      | '\n' :: rest => .ok (f.emit (.characters ['\n']), rest)
      | [] =>
        if x.medium.endsSoftly then .error (.noElement, [c])
        else .ok (f.emit (.characters ['\n']), [])
      | _ => .ok (f.emit (.characters ['\n']), more)
  | ']' =>
    match more with
    | ']' :: '>' :: rest => .error (.invalidToken, '>' :: rest)
    | _ =>
      if x.medium.ending = .ragged && (more = [] || more = [']']) then .error (.noElement, [])
      else .ok (f.emit (.characters [']']), more)
  | _ =>
    if isDataChar c then
      .ok (f.emit (.characters (c :: more.takeWhile isDataChar)), more.dropWhile isDataChar)
    else .error (.invalidToken, c :: more)

/-- The content up to the end of the root element, or of a replacement text; `fuel` bounds
the number of steps. -/
def content (x : Surroundings) (expand : Expanding) : Nat → List Char → Flow → Moved
  | 0, cs, _ => .error (.noElement, cs)
  | _, [], f => x.finish f []
  | fuel + 1, c :: more, f => do
    let (g, rest) ← x.step expand c more f
    if g.opened.isEmpty then .ok (g, rest) else content x expand fuel rest g

end Surroundings

/-- What the replacement text of an entity is read under, given the octets of the source that
have been read up to the reference, the entities that are being replaced and the number of
elements that are open there. -/
def Surroundings.within (x : Surroundings) (direct : Option Nat) (opened : List (List Char))
    (base : Nat) : Surroundings :=
  { x with
    medium := x.medium.replaced
    account := fun _ => direct
    base := base
    replacing := opened }

/-- The replacement of a reference to an entity in content.  `level` bounds the depth of
replacements, and `opened` are the entities that are being replaced.  Whatever is wrong
with the replacement text is found at the reference. -/
def expandAt (x : Surroundings) : Nat → List (List Char) → Expanding
  | 0, _, _, start, _ => .error (.recursiveEntity, start)
  | level + 1, opened, name, start, f =>
    match x.declarations.entity? name with
    | some (.internal text) =>
      if name ∈ opened then .error (.recursiveEntity, start)
      else
        let direct := x.account (start.drop (name.length + 2))
        let spent := f.spent + octetCount text
        if isExcessive direct spent then .error (.amplification, start)
        else
          let opened := name :: opened
          let inner := x.within direct opened f.opened.length
          match inner.content (expandAt x level opened) (text.length + 1) text
              { f with spent := spent } with
          | .ok (g, _) => .ok g
          | .error (cause, _) => .error (cause, start)
    | _ => .error (.undefinedEntity, start)

namespace Surroundings

/-- The root element, at whose start tag the characters begin. -/
def rootElement (x : Surroundings) (cs : List Char) (f : Flow) : Moved :=
  x.content (expandAt x (x.declarations.entities.length + 1) []) (cs.length + 1) cs f

end Surroundings

end Reading

end XmlDraft
