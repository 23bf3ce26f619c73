import XmlDraft.Json.Value

/-!
# Reading JSON

The value that a text writes, or what is wrong with the text and where.  A position is
the number of characters before it; messages show it also as a line and a column, both
counted from one.
-/

namespace XmlDraft

namespace Json

/-- What can be wrong with a text. -/
inductive Cause where
  | byteOrderMark
  | expectingValue
  | expectingName
  | expectingColon
  | expectingComma
  | unterminated
  | controlCharacter
  | badEscape
  | badUnicodeEscape
  | extraData
  /-- A whole number has more than 4300 digits. -/
  | longNumeral (digits : Nat)
deriving DecidableEq, Repr

namespace Cause

/-- The wording of a cause. -/
def message : Cause → String
  | byteOrderMark => "Unexpected UTF-8 BOM (decode using utf-8-sig)"
  | expectingValue => "Expecting value"
  | expectingName => "Expecting property name enclosed in double quotes"
  | expectingColon => "Expecting ':' delimiter"
  | expectingComma => "Expecting ',' delimiter"
  | unterminated => "Unterminated string starting at"
  | controlCharacter => "Invalid control character at"
  | badEscape => "Invalid \\escape"
  | badUnicodeEscape => "Invalid \\uXXXX escape"
  | extraData => "Extra data"
  | longNumeral digits =>
    "Exceeds the limit (4300 digits) for integer string conversion: value has "
      ++ Text.natText digits ++ " digits; use sys.set_int_max_str_digits() to increase the limit"

end Cause

/-- A cause and what follows the place where it was found. -/
abbrev Trouble := Cause × List Char

/-- A blank between the parts of a text. -/
def isBlank (c : Char) : Bool :=
  c = ' ' || c = '\t' || c = '\n' || c = '\r'

/-- The text without blanks at its head. -/
def skipBlanks (cs : List Char) : List Char :=
  cs.dropWhile isBlank

/-! ### Strings -/

/-- The number of four hexadecimal digits at the head of a text that goes on after
them, and what follows. -/
def fourDigits? : List Char → Option (Nat × List Char)
  | a :: b :: c :: d :: e :: rest =>
    if [a, b, c, d].all fun x => (Text.digitValue? x).isSome then
      some (Text.ofDigits 16 [a, b, c, d], e :: rest)
    else none
  | _ => none

/-- The character of two halves of a pair beyond the basic plane. -/
def pairChar (high low : Nat) : Char :=
  Char.ofNat (0x10000 + (high - 0xD800) * 0x400 + (low - 0xDC00))

/-- Whether a number is the first half of a pair. -/
def isHigh (n : Nat) : Bool :=
  0xD800 ≤ n && n < 0xDC00

/-- Whether a number is the second half of a pair. -/
def isLow (n : Nat) : Bool :=
  0xDC00 ≤ n && n < 0xE000

/-- The character of a number; half a pair stands for a replacement character. -/
def unitChar (n : Nat) : Char :=
  if isHigh n || isLow n then '\uFFFD' else Char.ofNat n

/-- The character of an escape in hexadecimal digits, at which `cs` begins with its
letter, and what follows; two halves of a pair give one character. -/
def unicodeEscape (cs : List Char) : Except Trouble (Char × List Char) :=
  match fourDigits? (cs.drop 1) with
  | none => .error (.badUnicodeEscape, cs)
  | some (n, rest) =>
    match rest with
    | '\\' :: 'u' :: more =>
      if isHigh n && 4 < more.length then
        match fourDigits? more with
        | none => .error (.badUnicodeEscape, 'u' :: more)
        | some (m, after) =>
          if isLow m then .ok (pairChar n m, after) else .ok (unitChar n, rest)
      else .ok (unitChar n, rest)
    | _ => .ok (unitChar n, rest)

/-- The character of an escape of one letter. -/
def letterEscape? (c : Char) : Option Char :=
  if c = '"' || c = '\\' || c = '/' then some c
  else if c = 'b' then some '\x08'
  else if c = 'f' then some '\x0c'
  else if c = 'n' then some '\n'
  else if c = 'r' then some '\r'
  else if c = 't' then some '\t'
  else none

/-- The characters of a string up to its closing quote, and what follows; `opening` is
the text from the opening quote on, and `fuel` bounds the number of characters. -/
def readChars (opening : List Char) : Nat → List Char → Except Trouble (List Char × List Char)
  | 0, _ => .error (.unterminated, opening)
  | _, [] => .error (.unterminated, opening)
  | fuel + 1, c :: cs =>
    if c = '"' then .ok ([], cs)
    else if c = '\\' then
      match cs with
      | [] => .error (.unterminated, opening)
      | e :: rest => do
        let (x, rest) ←
          if e = 'u' then unicodeEscape cs
          else
            match letterEscape? e with
            | some x => .ok (x, rest)
            | none => .error (.badEscape, c :: cs)
        let (xs, rest) ← readChars opening fuel rest
        .ok (x :: xs, rest)
    else if c.toNat < 0x20 then .error (.controlCharacter, c :: cs)
    else do
      let (xs, rest) ← readChars opening fuel cs
      .ok (c :: xs, rest)

/-- A string whose opening quote has been read, and what follows it. -/
def readString (cs : List Char) : Except Trouble (String × List Char) :=
  (readChars ('"' :: cs) (cs.length + 1) cs).map fun (xs, rest) => (String.ofList xs, rest)

/-! ### Numbers -/

/-- The digits of a whole number at the head of a text, without needless zeros, and what
follows. -/
def wholeDigits (cs : List Char) : List Char × List Char :=
  match cs with
  | '0' :: rest => (['0'], rest)
  | _ => Binary64.spanDigits cs

/-- The digits of a fraction at the head of a text, and what follows. -/
def fractionDigits (cs : List Char) : List Char × List Char :=
  match cs with
  | '.' :: rest =>
    let (ds, rest) := Binary64.spanDigits rest
    if ds = [] then ([], cs) else (ds, rest)
  | _ => ([], cs)

/-- The exponent at the head of a text, if there is one, and what follows. -/
def exponent (cs : List Char) : Option Int × List Char :=
  match cs with
  | c :: rest =>
    if c = 'e' || c = 'E' then
      let (negative, rest) := Binary64.spanSign rest
      let (ds, rest) := Binary64.spanDigits rest
      if ds = [] then (none, cs)
      else
        let n : Int := Text.ofDigits 10 ds
        (some (if negative then -n else n), rest)
    else (none, cs)
  | [] => (none, cs)

/-- A number at the head of a text, and what follows. -/
def readNumber (cs : List Char) : Except Trouble (Json × List Char) :=
  let (negative, rest) := match cs with
    | '-' :: rest => (true, rest)
    | _ => (false, cs)
  let (whole, rest) := wholeDigits rest
  if whole = [] then .error (.expectingValue, cs)
  else
    let (fraction, rest) := fractionDigits rest
    let (e, rest) := exponent rest
    if fraction = [] && e = none then
      if 4300 < whole.length then .error (.longNumeral whole.length, cs)
      else
        let n : Int := Text.ofDigits 10 whole
        .ok (int (if negative then -n else n), rest)
    else
      let digits := Text.ofDigits 10 (whole ++ fraction)
      .ok (real (.ofScientific negative digits (e.getD 0 - fraction.length)), rest)

/-- The words for values that are not composed. -/
def words : List (String × Json) :=
  [("null", null), ("true", bool true), ("false", bool false), ("NaN", real .nan),
    ("Infinity", real (.infinite false)), ("-Infinity", real (.infinite true))]

/-- A word or a number at the head of a text, and what follows. -/
def readScalar (cs : List Char) : Except Trouble (Json × List Char) :=
  match words.find? fun w => w.1.toList.isPrefixOf cs with
  | some (w, j) => .ok (j, cs.drop w.length)
  | none => readNumber cs

/-! ### Values -/

mutual

/-- A value at the head of a text, and what follows; `fuel` bounds the number of values
and blanks. -/
def readValue : Nat → List Char → Except Trouble (Json × List Char)
  | 0, cs => .error (.expectingValue, cs)
  | fuel + 1, cs =>
    match cs with
    | '"' :: rest => (readString rest).map fun (s, rest) => (str s, rest)
    | '\x7b' :: rest =>
      match skipBlanks rest with
      | '\x7d' :: rest => .ok (obj [], rest)
      | rest => readMembers fuel [] rest
    | '[' :: rest =>
      match skipBlanks rest with
      | ']' :: rest => .ok (arr [], rest)
      | rest => readItems fuel [] rest
    | _ => readScalar cs

/-- The members of an object from the next one on, those before being known, and what
follows the object. -/
def readMembers : Nat → List (String × Json) → List Char → Except Trouble (Json × List Char)
  | 0, _, cs => .error (.expectingName, cs)
  | fuel + 1, members, cs =>
    match cs with
    | '"' :: rest => do
      let (name, rest) ← readString rest
      match skipBlanks rest with
      | ':' :: rest =>
        let (value, rest) ← readValue fuel (skipBlanks rest)
        let members := put members name value
        match skipBlanks rest with
        | '\x7d' :: rest => .ok (obj members, rest)
        | ',' :: rest => readMembers fuel members (skipBlanks rest)
        | rest => .error (.expectingComma, rest)
      | rest => .error (.expectingColon, rest)
    | _ => .error (.expectingName, cs)

/-- The items of a list from the next one on, those before being known in reverse, and
what follows the list. -/
def readItems : Nat → List Json → List Char → Except Trouble (Json × List Char)
  | 0, _, cs => .error (.expectingValue, cs)
  | fuel + 1, items, cs => do
    let (value, rest) ← readValue fuel cs
    let items := value :: items
    match skipBlanks rest with
    | ']' :: rest => .ok (arr items.reverse, rest)
    | ',' :: rest => readItems fuel items (skipBlanks rest)
    | rest => .error (.expectingComma, rest)

end

/-- A text that is no JSON: the cause, and the number of characters before its place. -/
structure Fault where
  /-- What is wrong. -/
  cause : Cause
  /-- The characters before the place. -/
  before : List Char
deriving DecidableEq, Repr

namespace Fault

/-- The cause with its place, except where a number is too long. -/
def message (f : Fault) : String :=
  match f.cause with
  | .longNumeral _ => f.cause.message
  | _ =>
    let line := f.before.count '\n' + 1
    let column := (f.before.reverse.takeWhile (· ≠ '\n')).length + 1
    f.cause.message ++ ": line " ++ Text.natText line ++ " column " ++ Text.natText column
      ++ " (char " ++ Text.natText f.before.length ++ ")"

end Fault

/-- The value of a text, or the trouble with it. -/
def readText (cs : List Char) : Except Trouble Json := do
  if cs.head? = some '\uFEFF' then .error (.byteOrderMark, cs)
  let (value, rest) ← readValue (2 * cs.length + 2) (skipBlanks cs)
  match skipBlanks rest with
  | [] => .ok value
  | rest => .error (.extraData, rest)

/-- The value that a text writes, or what is wrong with it. -/
def ofText (s : String) : Except Fault Json :=
  let cs := s.toList
  (readText cs).mapError fun (cause, rest) => ⟨cause, cs.take (cs.length - rest.length)⟩

end Json

end XmlDraft
