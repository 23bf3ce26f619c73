import XmlDraft.Reading.Content
import XmlDraft.Reading.Doctype
import XmlDraft.Reading.Heading
import XmlDraft.Reading.Octets
import XmlDraft.Writing.Encoding

/-!
# Markup

A source of markup as the events of a whole document: the declaration, what stands before
the root element, the root element, and what stands after it.  Octets say in which encoding
they are: by a mark at their start, by their first two octets, and by the declaration.  A
source that is a text is read as it is, whatever it declares.
-/

namespace XmlDraft

/-- A source of markup. -/
inductive Source where
  | text (s : String)
  | octets (os : List UInt8)

namespace Source

/-- The octets of a source; those of a text are in UTF-8. -/
def bytes : Source → List UInt8
  | text s => OutputEncoding.utf8.encode s.toList
  | octets os => os

/-- The number of characters of a text, or of octets. -/
def size : Source → Nat
  | text s => s.length
  | octets os => os.length

end Source

namespace Reading

/-! ### Before, in and after the root -/

/-- The failure at the end of the characters where a token could begin. -/
def endFailure (m : Medium) (cause : Malformed) : Failure :=
  match m.ending with
  | .clean => (cause, [])
  | .ragged => (.unclosedToken, [])
  | .malformed => (.invalidToken, [])
  | .broken => (.invalidToken, [])
  | .truncated => (.partialCharacter, [])

/-- Whether the root element may begin at a stage. -/
def Stage.allowsRoot : Stage → Bool
  | .beginning => true
  | .beforeDoctype => true
  | .afterDoctype => true
  | _ => false

/-- What stands before the root element, and the characters from the root on; `fuel` bounds
the number of tokens. -/
def beforeRoot (m : Medium) (account : Account) :
    Nat → List Char → Prolog → Except Failure (Prolog × List Char)
  | 0, cs, _ => .error (.noElement, cs)
  | _, [], _ => .error (endFailure m .noElement)
  | fuel + 1, c :: more, p =>
    match m.token c more with
    | .error l => .error (failureOf l (c :: more))
    | .ok (.root, _) =>
      if p.stage.allowsRoot then .ok (p, c :: more) else .error (.wrongSyntax, c :: more)
    | .ok (t, rest) => do
      let raw := (c :: more).take (more.length + 1 - rest.length)
      let isHalved := rest = [] && m.ending = .ragged && t.endsOpen
      let q ← p.step m account (if isHalved then t.halved else t) raw (c :: more)
      beforeRoot (if isHalved then m.enclosed else m) account fuel rest q

/-- What stands after the root element: blanks, comments and instructions; `fuel` bounds
their number.  A carriage return at the end takes half a unit after it along. -/
def afterRoot (m : Medium) : Nat → List Char → List Event → Except Failure (List Event)
  | 0, _, events => .ok events
  | _, [], events => if m.ending = .clean then .ok events else .error (endFailure m .noElement)
  | fuel + 1, c :: more, events =>
    match m.token c more with
    | .error l => .error (failureOf l (c :: more))
    | .ok (.blank, rest) =>
      if rest = [] && m.ending = .ragged && (c :: more).getLast? = some '\r' then .ok events
      else afterRoot m fuel rest events
    | .ok (.comment text, rest) => afterRoot m fuel rest (commentEvent text :: events)
    | .ok (.instruction target text, rest) =>
      let raw := (c :: more).take (more.length + 1 - rest.length)
      afterRoot m fuel rest (instructionEvent raw target text :: events)
    | .ok _ => .error (.junkAfterRoot, c :: more)

/-- The events of a document after its declaration, in order. -/
def wholeMarkup (m : Medium) (manner : Manner) (account : Account) (p : Prolog) (cs : List Char) :
    Except Failure (List Event) := do
  let (p, rest) ← beforeRoot m account (cs.length + 1) cs p
  let x : Surroundings := ⟨m, p.declarations, manner, account, 0, []⟩
  let (f, rest) ← x.rootElement rest { events := p.events, spent := p.spent }
  let events ← afterRoot m (rest.length + 1) rest f.events
  .ok events.reverse

/-! ### Scripts -/

/-- A source as characters, with those that stand before its markup and only count in
positions. -/
structure Script where
  /-- The medium. -/
  medium : Medium
  /-- The characters before the markup. -/
  before : List Char
  /-- The characters of the markup. -/
  chars : List Char

namespace Script

/-- The position of characters of the script, given those that follow from there on. -/
def position (s : Script) (rest : List Char) : Position :=
  Position.start.after (s.before ++ s.chars.take (s.chars.length - rest.length))

/-- A failure at its position. -/
def refusal (s : Script) (f : Failure) : Unreadable :=
  .malformed f.1 (s.position f.2)

end Script

/-! ### Encodings -/

/-- The encoding that the first octets show, with the number of octets of the mark at their
start.  There is none as long as more octets could decide. -/
def detect? : List UInt8 → Option (InputEncoding × Nat)
  | [] => some (.utf8, 0)
  | [a] => if a = 0xFE || a = 0xFF || a = 0xEF || a = 0 then none else some (.utf8, 0)
  | a :: b :: os =>
    if a = 0xFE && b = 0xFF then some (.utf16 false, 2)
    else if a = 0xFF && b = 0xFE then some (.utf16 true, 2)
    else if a = 0xEF && b = 0xBB then
      match os with
      | [] => none
      | c :: _ => some (.utf8, if c = 0xBF then 3 else 0)
    else if a = 0 then some (.utf16 false, 0)
    else if b = 0 then some (.utf16 true, 0)
    else some (.utf8, 0)

namespace InputEncoding

/-- The encoding of a name that every reader knows; a name that leaves the order of octets
open keeps the order at hand. -/
def ofName? (current : InputEncoding) (name : List Char) : Option InputEncoding :=
  let n := String.ofList (name.map Char.toLower)
  if n = "utf-8" then some utf8
  else if n = "utf-16" then
    match current with
    | utf16 lowFirst => some (utf16 lowFirst)
    | _ => some (utf16 false)
  else if n = "utf-16be" then some (utf16 false)
  else if n = "utf-16le" then some (utf16 true)
  else if n = "iso-8859-1" then some latin1
  else if n = "us-ascii" then some ascii
  else none

/-- Whether an encoding can take the place of the one at hand: its characters have the same
least number of octets, in the same order. -/
def agrees (current new : InputEncoding) : Bool :=
  match current, new with
  | utf16 a, utf16 b => a = b
  | _, _ => current.unit = new.unit

/-- Octets as characters of which only the number and the ends of lines matter. -/
def shadow (e : InputEncoding) (os : List UInt8) : List Char :=
  match e with
  | page upper => os.map fun o => (tableChar? upper o).getD ' '
  | ascii => os.map fun o => (asciiChar? o).getD ' '
  | e => (e.decode os).chars

/-- The script of octets, the first ones of which stand before the markup. -/
def script (e : InputEncoding) (alphabet : Alphabet) (os : List UInt8) (lead : Nat) : Script :=
  let d := e.decode (os.drop lead)
  ⟨e.medium d alphabet, e.shadow (os.take lead), d.chars⟩

/-- The encoding that a declaration of a name asks for, if it fits. -/
def declared (current : InputEncoding) (s : Script) (name here : List Char) :
    Except Unreadable InputEncoding :=
  match ofName? current name with
  | some e => if current.agrees e then .ok e else .error (s.refusal (.incorrectEncoding, here))
  | none =>
    let n := String.ofList name
    match codePage? n with
    | none => .error (.noSuchEncoding n)
    | some (.table upper) => .ok (.page upper.toList.toArray)
    | some .shifted => .error (s.refusal (.unknownEncoding, here))
    | some .wide => .error (.wideEncoding n)
    | some (.strange reason) => .error (.strangeEncoding n reason)
    | some .narrow => .error (.narrowEncoding n)

end InputEncoding

/-! ### Reading -/

/-- A script whose declaration has been read: what follows the declaration, and the state
before the root. -/
structure Begun where
  /-- The script from which positions are counted. -/
  script : Script
  /-- The characters after the declaration. -/
  rest : List Char
  /-- The state before the root. -/
  prolog : Prolog

/-- The state before the root after a declaration. -/
def afterHeading (h : Heading) : Prolog where
  stage := .beforeDoctype
  declarations := { standalone := h.standalone = some true }
  events := [.declaration (String.ofList h.version)
    (h.encoding.map fun e => String.ofList e.1) h.standalone]

/-- The declaration at the head of a script, if there is one: its text, and what follows. -/
def headingText? (s : Script) : Option (List Char × List Char) :=
  match s.chars with
  | c :: more =>
    match s.medium.token c more with
    | .ok (.declaration text, rest) => some (text, rest)
    | _ => none
  | [] => none

/-- The script with its declaration read, where `switch` gives the script and the rest in
the encoding that the declaration names. -/
def begin (s : Script)
    (switch : List Char → List Char → List Char → Except Unreadable (Script × List Char)) :
    Except Unreadable Begun :=
  match headingText? s with
  | none => .ok ⟨s, s.chars, {}⟩
  | some (text, rest) =>
    let place := fun (cs : List Char) => s.chars.drop (5 + (text.length - cs.length))
    match Heading.ofText text with
    | .error cs => .error (s.refusal (.badDeclaration, place cs))
    | .ok h =>
      match h.encoding with
      | none => .ok ⟨s, rest, afterHeading h⟩
      | some (name, here) => do
        let (s, rest) ← switch name (place here) rest
        .ok ⟨s, rest, afterHeading h⟩

/-- The script of a text and the rest after its declaration, which may name any encoding. -/
def keepScript (s : Script) (_ _ rest : List Char) : Except Unreadable (Script × List Char) :=
  .ok (s, rest)

/-- The script of octets in the encoding that the declaration names, and the rest after the
declaration. -/
def switchScript (e : InputEncoding) (alphabet : Alphabet) (os : List UInt8) (lead : Nat)
    (s : Script) (name here rest : List Char) : Except Unreadable (Script × List Char) := do
  let new ← e.declared s name here
  let read := s.chars.take (s.chars.length - rest.length)
  let next := new.script alphabet os (lead + totalWidth e.width read)
  .ok (next, next.chars)

/-- Whether a text begins like octets in UTF-16: with a zero among its first two. -/
def looksWide : List Char → Bool
  | c :: d :: _ => c = '\x00' || (c.toNat < 0x80 && d = '\x00')
  | [c] => c = '\x00'
  | [] => false

/-- The script of a text; a mark at its start only counts in positions. -/
def textScript (alphabet : Alphabet) (cs : List Char) : Script :=
  let medium : Medium := { alphabet := alphabet }
  match cs with
  | '\ufeff' :: rest => ⟨medium, [' '], rest⟩
  | _ => ⟨medium, [], cs⟩

/-- The script of a source with its declaration read. -/
def beginSource (manner : Manner) (source : Source) : Except Unreadable Begun :=
  let alphabet := manner.alphabet
  let fromOctets := fun (isText : Bool) (os : List UInt8) =>
    match detect? os with
    | none => begin ⟨{ ending := .ragged }, [], []⟩ (keepScript ⟨{}, [], []⟩)
    | some (e, lead) =>
      let s := e.script alphabet os lead
      begin s (if isText then keepScript s else switchScript e alphabet os lead s)
  match source with
  | .octets os => fromOctets false os
  | .text t =>
    if looksWide t.toList then fromOctets true source.bytes
    else
      let s := textScript alphabet t.toList
      begin s (keepScript s)

/-- The number of octets of a source from given characters on. -/
def Medium.left (m : Medium) (rest : List Char) : Nat :=
  totalWidth m.width rest + m.spare + if m.ending = .ragged then 1 else 0

/-- The account of a source of a number of octets, of which those before the characters that
follow have been read. -/
def Medium.account (m : Medium) (size : Nat) : Account :=
  fun rest => some (size - m.left rest)

/-- The events of a source, read in a manner. -/
def events (manner : Manner) (source : Source) : Except Unreadable (List Event) := do
  let b ← beginSource manner source
  let p := { b.prolog with types := if manner.distinctTypes then some [] else none }
  let account := b.script.medium.account source.bytes.length
  (wholeMarkup b.script.medium manner account p b.rest).mapError b.script.refusal

end Reading

end XmlDraft
