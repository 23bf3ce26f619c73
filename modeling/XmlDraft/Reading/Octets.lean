import XmlDraft.Reading.CodePage

/-!
# Octets

The characters that octets write in UTF-8, in UTF-16 and in encodings of one octet for each
character.  Decoding stops at the first octets that write no character, and says what
follows the characters: nothing, octets that fit nothing, or the beginning of a character.
-/

namespace XmlDraft

namespace Reading

/-- Octets as far as they write characters: the characters, what follows them, and the
number of octets that follow. -/
structure Decoded where
  /-- The characters. -/
  chars : List Char
  /-- What follows the last character. -/
  ending : Ending
  /-- The number of octets that follow the last character. -/
  spare : Nat

namespace Decoded

/-- Nothing but what follows. -/
def stop (ending : Ending) (spare : Nat) : Decoded :=
  ⟨[], ending, spare⟩

/-- One more character in front. -/
def cons (c : Char) (d : Decoded) : Decoded :=
  { d with chars := c :: d.chars }

end Decoded

/-! ### UTF-8 -/

/-- Whether an octet continues a character. -/
def isTail (n : Nat) : Bool :=
  0x80 ≤ n && n < 0xC0

/-- The number of octets of a character that begins with an octet beyond ASCII, if one may
begin with it. -/
def leadWidth? (n : Nat) : Option Nat :=
  if n < 0xC0 then none
  else if n < 0xE0 then some 2
  else if n < 0xF0 then some 3
  else if n < 0xF5 then some 4
  else none

/-- The character of two octets, if they write one in its shortest form. -/
def twoOctets? (a b : Nat) : Option Char :=
  if 0xC2 ≤ a && isTail b then some (Char.ofNat ((a - 0xC0) * 0x40 + (b - 0x80))) else none

/-- The character of three octets, if they write one in its shortest form; the last two
numbers of the basic plane have none. -/
def threeOctets? (a b c : Nat) : Option Char :=
  let n := (a - 0xE0) * 0x1000 + (b - 0x80) * 0x40 + (c - 0x80)
  if isTail b && isTail c && 0x800 ≤ n && !(0xD800 ≤ n && n < 0xE000) && n < 0xFFFE then
    some (Char.ofNat n)
  else none

/-- The character of four octets, if they write one in its shortest form. -/
def fourOctets? (a b c d : Nat) : Option Char :=
  let n := (a - 0xF0) * 0x40000 + (b - 0x80) * 0x1000 + (c - 0x80) * 0x40 + (d - 0x80)
  if isTail b && isTail c && isTail d && 0x10000 ≤ n && n < 0x110000 then some (Char.ofNat n)
  else none

/-- The octets in UTF-8, read with a number of octets still to be passed over; those of a
character are looked at where it begins. -/
def utf8From : Nat → List UInt8 → Decoded
  | _, [] => .stop .clean 0
  | skip + 1, _ :: os => utf8From skip os
  | 0, o :: os =>
    let a := o.toNat
    if a < 0x80 then (utf8From 0 os).cons (Char.ofNat a)
    else
      let left := os.length + 1
      match leadWidth? a with
      | none => .stop .malformed left
      | some w =>
        let found := match w, os with
          | 2, b :: _ => some (twoOctets? a b.toNat)
          | 3, b :: c :: _ => some (threeOctets? a b.toNat c.toNat)
          | 4, b :: c :: d :: _ => some (fourOctets? a b.toNat c.toNat d.toNat)
          | _, _ => none
        match found with
        | none => .stop .truncated left
        | some none => .stop .broken left
        | some (some x) => (utf8From (w - 1) os).cons x

/-- The characters of octets in UTF-8. -/
def decodeUtf8 (os : List UInt8) : Decoded :=
  utf8From 0 os

/-! ### UTF-16 -/

/-- The numbers of octets taken two by two, and whether one is left over. -/
def units (lowFirst : Bool) : List UInt8 → List Nat × Bool
  | a :: b :: os =>
    let (us, isRagged) := units lowFirst os
    ((if lowFirst then b.toNat * 0x100 + a.toNat else a.toNat * 0x100 + b.toNat) :: us, isRagged)
  | [_] => ([], true)
  | [] => ([], false)

/-- The character of a first and a second unit; of the second one only the ten lower bits
count. -/
def pairChar (a b : Nat) : Char :=
  Char.ofNat (0x10000 + (a - 0xD800) * 0x400 + b % 0x400)

/-- The characters of units; a unit of the second half of a pair fits nothing without the
first half. -/
def ofUnits (isRagged : Bool) : List Nat → Decoded
  | [] => .stop (if isRagged then .ragged else .clean) 0
  | u :: us =>
    if 0xD800 ≤ u && u < 0xDC00 then
      match us with
      | [] => .stop .truncated 2
      | v :: rest => (ofUnits isRagged rest).cons (pairChar u v)
    else if 0xDC00 ≤ u && u < 0xE000 then .stop .malformed (2 * (us.length + 1))
    else (ofUnits isRagged us).cons (Char.ofNat u)

/-- The characters of octets in UTF-16. -/
def decodeUtf16 (lowFirst : Bool) (os : List UInt8) : Decoded :=
  let (us, isRagged) := units lowFirst os
  ofUnits isRagged us

/-! ### One octet for each character -/

/-- The characters of octets, given the character of each octet. -/
def decodeSingle (char? : UInt8 → Option Char) : List UInt8 → Decoded
  | [] => .stop .clean 0
  | o :: os =>
    match char? o with
    | some c => (decodeSingle char? os).cons c
    | none => .stop .malformed (os.length + 1)

/-- The character of an octet in ASCII. -/
def asciiChar? (o : UInt8) : Option Char :=
  if o < 0x80 then some (Char.ofNat o.toNat) else none

/-- The character of an octet in Latin-1. -/
def latin1Char? (o : UInt8) : Option Char :=
  some (Char.ofNat o.toNat)

/-- The character of an octet in a code page. -/
def tableChar? (upper : Array Char) (o : UInt8) : Option Char :=
  if o < 0x80 then some (Char.ofNat o.toNat)
  else (upper[o.toNat - 0x80]?).filter (· ≠ '\ufffd')

/-! ### Encodings -/

/-- An encoding of markup that is read. -/
inductive InputEncoding where
  | utf8
  | utf16 (lowFirst : Bool)
  | latin1
  | ascii
  | page (upper : Array Char)

namespace InputEncoding

/-- The least number of octets of a character. -/
def unit : InputEncoding → Nat
  | utf16 _ => 2
  | _ => 1

/-- The number of octets of a character. -/
def width : InputEncoding → Char → Nat
  | utf8, c => utf8Width c
  | utf16 _, c => if c.toNat < 0x10000 then 2 else 4
  | _, _ => 1

/-- Whether the ordinal signs and the micro sign count as letters. -/
def signs : InputEncoding → Bool
  | utf16 _ => true
  | latin1 => true
  | _ => false

/-- The number from which on characters are told apart only inside names. -/
def known : InputEncoding → Nat
  | utf8 => 0x80
  | utf16 _ => 0x100
  | _ => 0x10000

/-- The characters of octets. -/
def decode : InputEncoding → List UInt8 → Decoded
  | utf8, os => decodeUtf8 os
  | utf16 lowFirst, os => decodeUtf16 lowFirst os
  | latin1, os => decodeSingle latin1Char? os
  | ascii, os => decodeSingle asciiChar? os
  | page upper, os => decodeSingle (tableChar? upper) os

/-- The number of columns that octets which stand before the characters take. -/
def columns (e : InputEncoding) (os : List UInt8) : Nat :=
  match e with
  | utf8 => (decodeUtf8 os).chars.length
  | utf16 lowFirst => (decodeUtf16 lowFirst os).chars.length
  | _ => os.length

/-- The medium of characters decoded from octets. -/
def medium (e : InputEncoding) (d : Decoded) (alphabet : Alphabet) : Medium where
  alphabet := { alphabet with signs := e.signs, known := e.known }
  ending := d.ending
  spare := if d.ending = .ragged then 0 else d.spare
  width := e.width
  unit := e.unit

end InputEncoding

end Reading

end XmlDraft
