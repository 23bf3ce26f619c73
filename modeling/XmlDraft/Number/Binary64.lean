import XmlDraft.Text.Digits

/-!
# Binary floating point

Numbers in the format of 53 binary digits, as a natural number times a power of two,
and the rounding of an exact quotient to the nearest of them, where a tie goes to the
even one.
-/

namespace XmlDraft

/-- A number of the binary format: no number, an infinity, or a mantissa times a power
of two with a sign of its own. -/
inductive Binary64 where
  | nan
  | infinite (negative : Bool)
  | finite (negative : Bool) (mantissa : Nat) (exponent : Int)
deriving DecidableEq, Repr

namespace Binary64

/-- The least exponent of the format. -/
def leastExponent : Int := -1074

/-- The greatest exponent of the format. -/
def greatestExponent : Int := 971

/-- Zero, with a sign. -/
def zero (negative : Bool) : Binary64 :=
  finite negative 0 leastExponent

/-- The quotient of two natural numbers rounded to the nearest natural number, a tie
going to the even one. -/
def roundDiv (num den : Nat) : Nat :=
  let q := num / den
  let r := num % den
  if 2 * r < den then q
  else if den < 2 * r then q + 1
  else if q % 2 = 0 then q else q + 1

/-- The numerator and denominator of `num / den` divided by a power of two. -/
def scaled (num den : Nat) (e : Int) : Nat × Nat :=
  if 0 ≤ e then (num, den * Nat.pow 2 e.toNat) else (num * Nat.pow 2 (-e).toNat, den)

/-- The exponent at which `num / den` has 53 binary digits, or the least one. -/
def exponentFor (num den : Nat) : Int :=
  let e : Int := (Nat.log2 num : Int) - Nat.log2 den - 53
  let (n, d) := scaled num den e
  let e := if n / d < Nat.pow 2 53 then e else e + 1
  max e leastExponent

/-- The number of the format nearest to `num / den`, with a sign. -/
def ofRatio (negative : Bool) (num den : Nat) : Binary64 :=
  if num = 0 || den = 0 then zero negative
  else
    let e := exponentFor num den
    let (n, d) := scaled num den e
    let m := roundDiv n d
    let (m, e) := if m = Nat.pow 2 53 then (Nat.pow 2 52, e + 1) else (m, e)
    if greatestExponent < e then infinite negative else finite negative m e

/-- The number of the format nearest to `digits` times a power of ten; far exponents
are those of zero and infinity. -/
def ofScientific (negative : Bool) (digits : Nat) (e : Int) : Binary64 :=
  if digits = 0 then zero negative
  else
    let top : Int := (Nat.toDigits 10 digits).length + e
    if top < -400 then zero negative
    else if 400 < top then infinite negative
    else if 0 ≤ e then ofRatio negative (digits * Nat.pow 10 e.toNat) 1
    else ofRatio negative digits (Nat.pow 10 (-e).toNat)

/-- The exact value as a signed numerator and a denominator, where there is one. -/
def ratio? : Binary64 → Option (Int × Nat)
  | finite negative m e =>
    let n : Int := if negative then -(m : Int) else m
    if 0 ≤ e then some (n * Nat.pow 2 e.toNat, 1) else some (n, Nat.pow 2 (-e).toNat)
  | _ => none

/-! ### Reading -/

/-- The digits at the head of a text and what follows them. -/
def spanDigits (cs : List Char) : List Char × List Char :=
  (cs.takeWhile Text.isDigit, cs.dropWhile Text.isDigit)

/-- An optional sign at the head of a text: whether it is a minus, and the rest. -/
def spanSign : List Char → Bool × List Char
  | '-' :: cs => (true, cs)
  | '+' :: cs => (false, cs)
  | cs => (false, cs)

/-- An exponent part `e±digits` that is the whole of a text, or nothing at all. -/
def exponentPart? : List Char → Option Int
  | [] => some 0
  | c :: cs =>
    if c = 'e' || c = 'E' then
      let (negative, cs) := spanSign cs
      let (ds, rest) := spanDigits cs
      if ds = [] || rest ≠ [] then none
      else
        let n : Int := Text.ofDigits 10 ds
        some (if negative then -n else n)
    else none

/-- Digits with an optional fraction: the digits read as one number, and the number of
those after the point.  At least one digit is there. -/
def significand? (cs : List Char) : Option ((Nat × Nat) × List Char) :=
  let (whole, rest) := spanDigits cs
  let (fraction, rest) :=
    match rest with
    | '.' :: cs => spanDigits cs
    | cs => ([], cs)
  if whole = [] && fraction = [] then none
  else some ((Text.ofDigits 10 (whole ++ fraction), fraction.length), rest)

/-- Reads a number: a sign, and a decimal numeral with an optional exponent, or the
words for an infinity and for no number. -/
def ofText? (s : String) : Option Binary64 :=
  let (negative, cs) := spanSign s.toList
  let word := String.ofList (cs.map Char.toLower)
  if word = "inf" || word = "infinity" then some (infinite negative)
  else if word = "nan" then some nan
  else
    match significand? cs with
    | none => none
    | some ((digits, places), rest) =>
      (exponentPart? rest).map fun e => ofScientific negative digits (e - places)

end Binary64

end XmlDraft
