import XmlDraft.Number.Binary64

/-!
# Shortest decimals

The decimal text of a floating point number: the fewest digits that read back as the
number, and among those the nearest to it.  Numbers from 0.0001 up to 10^16 are written
positionally, others with an exponent of two digits or more.
-/

namespace XmlDraft

namespace Binary64

/-- The interval of quarter units `2 ^ (e - 2)` that rounds to a mantissa: its ends, and
whether they belong to it. -/
structure Interval where
  /-- The lower end. -/
  low : Nat
  /-- The upper end. -/
  high : Nat
  /-- Whether the ends belong to the interval. -/
  closed : Bool

/-- The interval that rounds to `m`; below a power of two the spacing halves. -/
def interval (m : Nat) (e : Int) : Interval where
  low := if m = Nat.pow 2 52 && leastExponent < e then 4 * m - 1 else 4 * m - 2
  high := 4 * m + 2
  closed := m % 2 = 0

/-- The decimal exponent of the leading digit of a quotient that is below one, given the
number of places tried so far. -/
def smallExponent : Nat → Nat → Nat → Int → Int
  | 0, _, _, k => k
  | fuel + 1, num, den, k =>
    if den ≤ num then k else smallExponent fuel (num * 10) den (k - 1)

/-- The decimal exponent of the leading digit of `num / den`, which is not zero. -/
def leadingExponent (num den : Nat) : Int :=
  if den ≤ num then ((Nat.toDigits 10 (num / den)).length : Int) - 1
  else smallExponent 400 num den 0

/-- A power of ten as a numerator and a denominator. -/
def tenPower (p : Int) : Nat × Nat :=
  if 0 ≤ p then (Nat.pow 10 p.toNat, 1) else (1, Nat.pow 10 (-p).toNat)

/-- Whether `d` times a power of ten lies in an interval of units `un / ud`. -/
def Interval.holds (i : Interval) (un ud : Nat) (ten : Nat × Nat) (d : Nat) : Bool :=
  let x := d * ten.1 * ud
  let low := i.low * un * ten.2
  let high := i.high * un * ten.2
  if i.closed then low ≤ x && x ≤ high else low < x && x < high

/-- The digits of the shortest decimals, trying one digit more at each step: the first
grid with a point in the interval, and on it the nearer of the two neighbours. -/
def searchDigits (i : Interval) (mid un ud : Nat) (k : Int) : Nat → Nat → Nat × Int
  | 0, n =>
    let ten := tenPower (k - n + 1)
    (roundDiv (mid * un * ten.2) (ud * ten.1), k - n + 1)
  | fuel + 1, n =>
    let p := k - n + 1
    let ten := tenPower p
    let num := mid * un * ten.2
    let den := ud * ten.1
    let d := num / den
    let below := i.holds un ud ten d
    let above := i.holds un ud ten (d + 1)
    if below && above then (roundDiv num den, p)
    else if below then (d, p)
    else if above then (d + 1, p)
    else searchDigits i mid un ud k fuel (n + 1)

/-- The shortest decimals of `m * 2 ^ e`, which is not zero: digits without a zero at the
end, and the decimal exponent of the last of them. -/
def shortest (m : Nat) (e : Int) : Nat × Int :=
  let (un, ud) := tenFree (e - 2)
  let mid := 4 * m
  let k := leadingExponent (mid * un) ud
  let (d, p) := searchDigits (interval m e) mid un ud k 17 1
  stripped 20 d p
where
  /-- A power of two as a numerator and a denominator. -/
  tenFree (e : Int) : Nat × Nat :=
    if 0 ≤ e then (Nat.pow 2 e.toNat, 1) else (1, Nat.pow 2 (-e).toNat)
  /-- Zeros at the end moved into the exponent. -/
  stripped : Nat → Nat → Int → Nat × Int
    | 0, d, p => (d, p)
    | fuel + 1, d, p => if d ≠ 0 && d % 10 = 0 then stripped fuel (d / 10) (p + 1) else (d, p)

/-- The sign of a text. -/
def signed (negative : Bool) (cs : List Char) : String :=
  String.ofList (if negative then '-' :: cs else cs)

/-- An exponent with its sign and two digits at least. -/
def exponentText (k : Int) : List Char :=
  let sign := if k < 0 then '-' else '+'
  'e' :: sign :: Text.padZeros 2 (Nat.toDigits 10 k.natAbs)

/-- Digits in positional notation, the point standing after the first `place` of them;
`whole` is written after a number that has no fraction. -/
def positional (ds : List Char) (place : Int) (whole : List Char) : List Char :=
  if place ≤ 0 then '0' :: '.' :: List.replicate (-place).toNat '0' ++ ds
  else if (ds.length : Int) ≤ place then
    ds ++ List.replicate (place - ds.length).toNat '0' ++ whole
  else ds.take place.toNat ++ '.' :: ds.drop place.toNat

/-- Digits in exponential notation, the first digit before the point. -/
def exponential (ds : List Char) (k : Int) : List Char :=
  match ds with
  | d :: (d' :: ds) => d :: '.' :: d' :: ds ++ exponentText k
  | ds => ds ++ exponentText k

/-- The text of a number, with `whole` after a positional one that has no fraction. -/
def textWith (whole : List Char) : Binary64 → String
  | nan => "nan"
  | infinite negative => signed negative "inf".toList
  | finite negative m e =>
    if m = 0 then signed negative ('0' :: whole)
    else
      let (d, p) := shortest m e
      let ds := Nat.toDigits 10 d
      let place := (ds.length : Int) + p
      signed negative <|
        if -4 < place && place ≤ 16 then positional ds place whole
        else exponential ds (place - 1)

/-- The text of a number; a whole one shows a zero after the point. -/
def text (x : Binary64) : String :=
  x.textWith ['.', '0']

/-- The text of a number as part of a complex one: a whole one shows no fraction. -/
def partText (x : Binary64) : String :=
  x.textWith []

/-- Whether the sign of a number is a minus. -/
def isNegative : Binary64 → Bool
  | nan => false
  | infinite negative => negative
  | finite negative _ _ => negative

/-- The text of a complex number: only the imaginary part when the real part is a zero
without a minus, and both between parentheses otherwise. -/
def complexText (re im : Binary64) : String :=
  match re with
  | finite false 0 _ => im.partText ++ "j"
  | _ =>
    let sign := if im.isNegative then "" else "+"
    "(" ++ re.partText ++ sign ++ im.partText ++ "j)"

end Binary64

end XmlDraft
