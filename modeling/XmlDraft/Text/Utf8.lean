import XmlDraft.Text.Digits

/-!
# UTF-8

The text that octets write in UTF-8, every character in its shortest form, or the first place
where they write none: an octet that begins no character, one that does not continue it, or
the end of the octets inside a character.
-/

namespace XmlDraft

namespace Text

/-- What is wrong with octets that write no text. -/
inductive Utf8Trouble where
  | badStart
  | badContinuation
  | badEnd
deriving DecidableEq, Repr

/-- The place where octets write no text: the number of octets before it, and the octets that
are wrong there. -/
structure Utf8Fault where
  /-- What is wrong. -/
  trouble : Utf8Trouble
  /-- The number of octets before the place. -/
  position : Nat
  /-- The octets that are wrong. -/
  wrong : List UInt8
deriving DecidableEq, Repr

namespace Utf8Fault

/-- The wording of what is wrong. -/
def reason (f : Utf8Fault) : String :=
  match f.trouble with
  | .badStart => "invalid start byte"
  | .badContinuation => "invalid continuation byte"
  | .badEnd => "unexpected end of data"

/-- The wording of a fault. -/
def message (f : Utf8Fault) : String :=
  let place := match f.wrong with
    | [o] =>
      "byte 0x" ++ String.ofList (padZeros 2 (hexDigits o.toNat)) ++ " in position "
        ++ natText f.position
    | os =>
      "bytes in position " ++ natText f.position ++ "-"
        ++ natText (f.position + os.length - 1)
  "'utf-8' codec can't decode " ++ place ++ ": " ++ f.reason

end Utf8Fault

/-- Whether an octet continues a character. -/
def continues (o : UInt8) : Bool :=
  0x80 ≤ o && o < 0xC0

/-- Whether an octet may follow the first one of a character: it continues the character, whose
number then has no shorter form, is below the limit, and is no half of a pair. -/
def follows (first second : UInt8) : Bool :=
  continues second
    && !(first = 0xE0 && second < 0xA0) && !(first = 0xED && 0xA0 ≤ second)
    && !(first = 0xF0 && second < 0x90) && !(first = 0xF4 && 0x90 ≤ second)

/-- The number of octets of a character, by its first one. -/
def octetCount? (first : UInt8) : Option Nat :=
  if first < 0x80 then some 1
  else if first < 0xC2 then none
  else if first < 0xE0 then some 2
  else if first < 0xF0 then some 3
  else if first < 0xF5 then some 4
  else none

/-- The octets that continue a character which takes `more` of them, when `before` have been
read, the latest first. -/
def continuation (before : List UInt8) : Nat → List UInt8 → Except (Utf8Trouble × List UInt8) Unit
  | 0, _ => .ok ()
  | _ + 1, [] => .error (.badEnd, before.reverse)
  | more + 1, o :: os =>
    let fits := match before with
      | [first] => follows first o
      | _ => continues o
    if fits then continuation (o :: before) more os
    else .error (.badContinuation, before.reverse)

/-- The six lower bits of octets after the bits of a number. -/
def joinBits (n : Nat) (os : List UInt8) : Nat :=
  os.foldl (fun n o => n * 0x40 + o.toNat % 0x40) n

/-- The character of a first octet and those that continue it. -/
def charOf (first : UInt8) (more : List UInt8) : Char :=
  let lead := match more.length with
    | 0 => first.toNat
    | 1 => first.toNat % 0x20
    | 2 => first.toNat % 0x10
    | _ => first.toNat % 0x08
  Char.ofNat (joinBits lead more)

/-- The characters of octets, `position` being the number of octets before them, of which the
first `skip` belong to a character that has been read. -/
def decodeFrom (position : Nat) : Nat → List UInt8 → Except Utf8Fault (List Char)
  | _, [] => .ok []
  | skip + 1, _ :: os => decodeFrom (position + 1) skip os
  | 0, o :: os =>
    match octetCount? o with
    | none => .error ⟨.badStart, position, [o]⟩
    | some n =>
      match continuation [o] (n - 1) os with
      | .error (trouble, wrong) => .error ⟨trouble, position, wrong⟩
      | .ok _ => (decodeFrom (position + 1) (n - 1) os).map (charOf o (os.take (n - 1)) :: ·)

/-- The text that octets write. -/
def decodeUtf8 (os : List UInt8) : Except Utf8Fault (List Char) :=
  decodeFrom 0 0 os

end Text

end XmlDraft
