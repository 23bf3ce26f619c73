import XmlDraft.Value.Basic
import XmlDraft.Text.Quoted

/-!
# Texts of values

The texts that values have: the printed form, the shown form in which containers show
their items, and the markup form that content and attributes get.  In markup truth values
are lower-case words, dates and times follow ISO 8601, members of enumerations are their
names, and numbers that are not finite have the words of XML Schema.  Whole numbers of
more than 4300 digits have no text.
-/

namespace XmlDraft

/-- A number that is too long to have a text. -/
inductive NoText where
  | longNumber
deriving DecidableEq, Repr

namespace Value

open Text (natText intText quoted joined)

/-- The numeral of a whole number, if it is not too long. -/
def wholeText (n : Int) : Except NoText String :=
  if n.natAbs < Nat.pow 10 4300 then .ok (intText n) else .error .longNumber

/-- The text of a quotient, if its parts are not too long. -/
def quotientText (num : Int) (den : Nat) : Except NoText String :=
  let g := Nat.gcd num.natAbs den
  if (num / g).natAbs < Nat.pow 10 4300 && den / g < Nat.pow 10 4300 then .ok (ratioText num den)
  else .error .longNumber

/-- The shown form of a quotient in lowest terms. -/
def quotientShown (num : Int) (den : Nat) : Except NoText String := do
  let g := Nat.gcd num.natAbs den
  let n ← wholeText (num / g)
  let d ← wholeText (den / g : Nat)
  .ok ("Fraction(" ++ n ++ ", " ++ d ++ ")")

/-- Numerals with commas between them. -/
def commaText (ns : List Int) : String :=
  joined ", " (ns.map intText)

/-- The parts of a duration that are not zero, under their names. -/
def spanParts (s : Span) : String :=
  let part := fun (name : String) (n : Int) =>
    if n = 0 then [] else [name ++ "=" ++ intText n]
  let parts := part "days" s.days ++ part "seconds" (s.rest / 1000000 : Nat)
    ++ part "microseconds" (s.rest % 1000000 : Nat)
  if parts = [] then "0" else joined ", " parts

/-- The shown form of a duration. -/
def spanShown (s : Span) : String :=
  "datetime.timedelta(" ++ spanParts s ++ ")"

/-- The shown form of an offset from universal time, after a comma. -/
def offsetShown : Option Int → String
  | Option.none => ""
  | some 0 => ", tzinfo=datetime.timezone.utc"
  | some n => ", tzinfo=datetime.timezone(" ++ spanShown (Span.of 0 n 0) ++ ")"

/-- Seconds and microseconds of a time, as far as they are needed to show it. -/
def fineParts (t : Clock) : List Int :=
  if t.micro ≠ 0 then [(t.second : Int), (t.micro : Int)]
  else if t.second ≠ 0 then [(t.second : Int)]
  else []

/-- The shown form of a date. -/
def dateShown (d : Date) : String :=
  "datetime.date(" ++ commaText [(d.year : Int), (d.month : Int), (d.day : Int)] ++ ")"

/-- The shown form of a time. -/
def clockShown (t : Clock) : String :=
  "datetime.time(" ++ commaText ([(t.hour : Int), (t.minute : Int)] ++ fineParts t)
    ++ offsetShown t.offset ++ ")"

/-- The shown form of a date and time. -/
def momentShown (d : Date) (t : Clock) : String :=
  "datetime.datetime("
    ++ commaText ([(d.year : Int), (d.month : Int), (d.day : Int), (t.hour : Int),
      (t.minute : Int)] ++ fineParts t)
    ++ offsetShown t.offset ++ ")"

/-- The items of a list or tuple between its brackets; a tuple of one item shows a comma
after it. -/
def tupleText (items : List String) : String :=
  match items with
  | [x] => "(" ++ x ++ ",)"
  | _ => "(" ++ joined ", " items ++ ")"

/-- A tuple whose places have names; unless they all are texts, it is shown as a plain
one. -/
def rowText (places : List (FieldName × String)) : String :=
  match places.mapM fun p => p.1.text?.map fun name => name ++ "=" ++ p.2 with
  | some xs => "Row(" ++ joined ", " xs ++ ")"
  | Option.none => tupleText (places.map Prod.snd)

mutual

/-- The shown form of a value, in which containers show their items. -/
def shown : Value → Except NoText String
  | none => .ok "None"
  | bool b => .ok (if b then "True" else "False")
  | int n => wholeText n
  | str s => .ok (quoted s)
  | real x => .ok x.text
  | decimal d => .ok ("Decimal('" ++ d.text ++ "')")
  | ratio num den => quotientShown num den
  | complex re im => .ok (Binary64.complexText re im)
  | date d => .ok (dateShown d)
  | clock t => .ok (clockShown t)
  | moment d t => .ok (momentShown d t)
  | span s => .ok (spanShown s)
  | identifier u => .ok ("UUID('" ++ u.text ++ "')")
  | octets os => .ok (Text.quotedOctets os)
  | member _ name value => do
    let v ← shown value
    .ok ("<E." ++ name ++ ": " ++ v ++ ">")
  | list items => do
    let xs ← shownItems items
    .ok ("[" ++ joined ", " xs ++ "]")
  | tuple items => do
    let xs ← shownItems items
    .ok (tupleText xs)
  | mapping items => do
    let xs ← shownPairs items
    .ok ("\x7b" ++ joined ", " xs ++ "\x7d")
  | record fields => do
    let xs ← shownFields fields
    .ok ("Bag(" ++ joined ", " xs ++ ")")
  | row fields => do
    let xs ← shownPlaces fields
    .ok (rowText xs)
  | object _ => .ok "<object>"
  | bare => .ok "<object>"
  | sealed => .ok "<object>"
  | type _ => .ok "<class 'C'>"
  | function _ _ => .ok "<object>"
  | bound _ _ _ => .ok "<object>"
  | callable _ _ _ isText => .ok (if isText then quoted "" else "<object>")
  | builtin name => .ok ("<built-in function " ++ name ++ ">")

/-- The shown forms of several values. -/
def shownItems : List Value → Except NoText (List String)
  | [] => .ok []
  | x :: xs => do
    let s ← shown x
    let rest ← shownItems xs
    .ok (s :: rest)

/-- The shown forms of the entries of a mapping. -/
def shownPairs : List (Value × Value) → Except NoText (List String)
  | [] => .ok []
  | (k, v) :: xs => do
    let s ← shown k
    let t ← shown v
    let rest ← shownPairs xs
    .ok ((s ++ ": " ++ t) :: rest)

/-- The shown forms of named fields. -/
def shownFields : List (String × Value) → Except NoText (List String)
  | [] => .ok []
  | (name, v) :: xs => do
    let s ← shown v
    let rest ← shownFields xs
    .ok ((name ++ "=" ++ s) :: rest)

/-- The shown forms of the places of a tuple under their names. -/
def shownPlaces : List (FieldName × Value) → Except NoText (List (FieldName × String))
  | [] => .ok []
  | (name, v) :: xs => do
    let s ← shown v
    let rest ← shownPlaces xs
    .ok ((name, s) :: rest)

end

/-- The printed form of a value. -/
def printed : Value → Except NoText String
  | str s => .ok s
  | decimal d => .ok d.text
  | ratio num den => quotientText num den
  | date d => .ok d.iso
  | clock t => .ok t.iso
  | moment d t => .ok (d.iso ++ " " ++ t.iso)
  | span s => .ok s.text
  | identifier u => .ok u.text
  | member .whole _ (int n) => wholeText n
  | member _ name _ => .ok ("E." ++ name)
  | callable _ _ _ true => .ok ""
  | v => v.shown

/-- The text of a value in markup. -/
def markup : Value → Except NoText String
  | member _ name _ => .ok name
  | bool b => .ok (if b then "true" else "false")
  | moment d t => .ok (momentIso d t)
  | real .nan => .ok "NaN"
  | real (.infinite negative) => .ok (if negative then "-INF" else "INF")
  | v => v.printed

/-! ### Keys of mappings -/

/-- A number on the real line, infinities at its ends. -/
inductive RealNumber where
  | finite (num : Int) (den : Nat)
  | infinite (negative : Bool)

/-- The number that a binary one stands for. -/
def realNumber? (x : Binary64) : Option RealNumber :=
  match x with
  | .infinite negative => some (.infinite negative)
  | _ => x.ratio?.map fun r => .finite r.1 r.2

/-- The number that a value stands for, if it is one. -/
def number? : Value → Option RealNumber
  | bool b => some (.finite (if b then 1 else 0) 1)
  | int n => some (.finite n 1)
  | real x => realNumber? x
  | decimal (.infinite negative) => some (.infinite negative)
  | decimal d => d.ratio?.map fun r => .finite r.1 r.2
  | ratio num den => some (.finite num den)
  | complex re (.finite _ 0 _) => realNumber? re
  | member .whole _ (int n) => some (.finite n 1)
  | _ => Option.none

/-- Whether two numbers are equal. -/
def sameNumber : RealNumber → RealNumber → Bool
  | .finite n d, .finite m e => n * e = m * d
  | .infinite s, .infinite t => s = t
  | _, _ => false

/-- A time in microseconds of universal time, if its offset is known. -/
def universal? (t : Clock) : Option Int :=
  t.offset.map fun o => t.micros - o * 1000000

/-- Whether two times are equal: as universal times, or both without an offset. -/
def sameClock (t u : Clock) (days : Int) : Bool :=
  match universal? t, universal? u with
  | some a, some b => a + days * Span.dayMicros = b
  | Option.none, Option.none => days = 0 && t.micros = u.micros
  | _, _ => false

/-- Whether two keys of simple kinds are the same. -/
def sameSimple : Value → Value → Bool
  | none, none => true
  | complex a b, complex c d => a = c && b = d && a ≠ .nan && b ≠ .nan
  | date d, date e => d = e
  | clock t, clock u => sameClock t u 0
  | moment d t, moment e u => sameClock t u (d.dayNumber - e.dayNumber)
  | span s, span t => s = t
  | identifier u, identifier v => u = v
  | octets os, octets ps => os = ps
  | builtin f, builtin g => f = g
  | a, b =>
    match a.text?, b.text?, a.number?, b.number? with
    | some s, some t, _, _ => s = t
    | _, _, some m, some n => sameNumber m n
    | _, _, _, _ => false

/-- The places of a tuple, whether they have names or not. -/
def places? : Value → Option (List Value)
  | tuple items => some items
  | row fields => some (fields.map Prod.snd)
  | _ => Option.none

mutual

/-- Whether two values are the same key of a mapping: numbers by value, texts by their
characters, tuples place by place; other objects are different from each other. -/
def sameKey : Value → Value → Bool
  | tuple items, b =>
    match b.places? with
    | some ps => sameKeys items ps
    | Option.none => false
  | row fields, b =>
    match b.places? with
    | some ps => sameFields fields ps
    | Option.none => false
  | a, b => sameSimple a b

/-- Whether two lists of values are the same place by place. -/
def sameKeys : List Value → List Value → Bool
  | [], [] => true
  | x :: xs, y :: ys => sameKey x y && sameKeys xs ys
  | _, _ => false

/-- Whether the values of named places are the same as those of a list. -/
def sameFields : List (FieldName × Value) → List Value → Bool
  | [], [] => true
  | (_, x) :: xs, y :: ys => sameKey x y && sameFields xs ys
  | _, _ => false

end

/-- Puts an entry into a mapping; a key that is there keeps its place and gets the new
value. -/
def insert (items : List (Value × Value)) (key value : Value) : List (Value × Value) :=
  match items with
  | [] => [(key, value)]
  | (k, v) :: rest =>
    if k.sameKey key then (k, value) :: rest else (k, v) :: insert rest key value

/-- The mapping of entries put in one after another. -/
def ofPairs (items : List (Value × Value)) : Value :=
  mapping (items.foldl (fun m p => insert m p.1 p.2) [])

end Value

end XmlDraft
