import XmlDraft.Number.Binary64

/-!
# Decimal numbers

Numbers kept as decimal digits and an exponent, so that `1.0` and `1.00` are different
texts of one value.  A number is written positionally when its exponent is not positive
and it has at most six leading zeros after the point, and with an exponent otherwise.
-/

namespace XmlDraft

/-- A decimal number: a coefficient times a power of ten, an infinity, or no number. -/
inductive Decimal where
  | finite (negative : Bool) (coefficient : Nat) (exponent : Int)
  | infinite (negative : Bool)
  | nan (negative signaling : Bool) (payload : String)
deriving DecidableEq, Repr

namespace Decimal

open Text

/-- Digits with a point after the first `place` of them, zeros filled in where there are
none; no point when nothing follows it. -/
def pointed (ds : List Char) (place : Int) : List Char :=
  if place ≤ 0 then '0' :: '.' :: List.replicate (-place).toNat '0' ++ ds
  else if (ds.length : Int) ≤ place then ds ++ List.replicate (place - ds.length).toNat '0'
  else ds.take place.toNat ++ '.' :: ds.drop place.toNat

/-- The exponent part of a text, with a sign; none for zero. -/
def exponentText (k : Int) : String :=
  if k = 0 then "" else "E" ++ (if k < 0 then "-" else "+") ++ natText k.natAbs

/-- The text of a decimal number. -/
def text : Decimal → String
  | infinite negative => (if negative then "-" else "") ++ "Infinity"
  | nan negative signaling payload =>
    (if negative then "-" else "") ++ (if signaling then "sNaN" else "NaN") ++ payload
  | finite negative coefficient exponent =>
    let ds := Nat.toDigits 10 coefficient
    let left := exponent + ds.length
    let place := if exponent ≤ 0 && -6 < left then left else 1
    (if negative then "-" else "") ++ String.ofList (pointed ds place)
      ++ exponentText (left - place)

/-- The exact value as a signed numerator and a denominator, where there is one. -/
def ratio? : Decimal → Option (Int × Nat)
  | finite negative coefficient exponent =>
    let n : Int := if negative then -(coefficient : Int) else coefficient
    if 0 ≤ exponent then some (n * Nat.pow 10 exponent.toNat, 1)
    else some (n, Nat.pow 10 (-exponent).toNat)
  | _ => none

/-- The digits behind the word for no number, without leading zeros. -/
def payloadText (ds : List Char) : String :=
  String.ofList (ds.dropWhile (· = '0'))

/-- Reads a decimal number: a sign, and a numeral with an optional exponent, or a word
for an infinity or for no number. -/
def ofText? (s : String) : Option Decimal :=
  let (negative, cs) := Binary64.spanSign s.toList
  let word := cs.map Char.toLower
  if String.ofList word = "inf" || String.ofList word = "infinity" then some (infinite negative)
  else if word.take 3 = "nan".toList && (cs.drop 3).all isDigit then
    some (nan negative false (payloadText (cs.drop 3)))
  else if word.take 4 = "snan".toList && (cs.drop 4).all isDigit then
    some (nan negative true (payloadText (cs.drop 4)))
  else
    match Binary64.significand? cs with
    | none => none
    | some ((digits, places), rest) =>
      (Binary64.exponentPart? rest).map fun e => finite negative digits (e - places)

end Decimal

/-- The text of a quotient in lowest terms; a whole one shows no denominator. -/
def ratioText (num : Int) (den : Nat) : String :=
  let g := Nat.gcd num.natAbs den
  let n := num / g
  let d := den / g
  if d = 1 then Text.intText n else Text.intText n ++ "/" ++ Text.natText d

end XmlDraft
