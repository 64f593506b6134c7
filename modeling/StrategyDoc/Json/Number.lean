import StrategyDoc.Binary64.Shortest
import StrategyDoc.Json.Basic

/-! # The text of a number

An integer is written in decimal.  A double is written with its shortest digits: with a
decimal point from `10 ^ -5` up to but not including `10 ^ 16`, always with a digit on both
sides of the point, and otherwise with one digit before the point and a signed exponent. -/

namespace StrategyDoc

namespace Decimal

/-- The decimal digits, the most significant first. -/
def digitChars (d : Decimal) : List Char := Nat.toDigits 10 d.digits

/-- The number of digits before the decimal point when the decimal is written without an
exponent; negative or zero if zeros follow the point. -/
def pointPlace (d : Decimal) : Int := d.digitChars.length + d.exponent

/-- The least and the greatest place of the point for which no exponent is written. -/
def leastPlace : Int := -4

def greatestPlace : Int := 16

/-- Digits with a decimal point. -/
def positional (d : Decimal) : List Char :=
  match d.exponent, d.pointPlace with
  | .ofNat zeros, _ => d.digitChars ++ List.replicate zeros '0' ++ ['.', '0']
  | .negSucc _, .ofNat 0 => '0' :: '.' :: d.digitChars
  | .negSucc _, .ofNat place =>
    d.digitChars.take place ++ '.' :: d.digitChars.drop place
  | .negSucc _, .negSucc zeros =>
    '0' :: '.' :: (List.replicate (zeros + 1) '0' ++ d.digitChars)

/-- A power of ten with its sign. -/
def exponentChars : Int → List Char
  | .ofNat n => '+' :: Nat.toDigits 10 n
  | .negSucc n => '-' :: Nat.toDigits 10 (n + 1)

/-- One digit, the others after a point, and an exponent. -/
def scientific (d : Decimal) : List Char :=
  let exponent := 'e' :: exponentChars (d.pointPlace - 1)
  match d.digitChars with
  | first :: second :: rest => first :: '.' :: second :: rest ++ exponent
  | digits => digits ++ exponent

/-- The text of a decimal other than zero. -/
def text (d : Decimal) : List Char :=
  if leastPlace ≤ d.pointPlace ∧ d.pointPlace ≤ greatestPlace then d.positional
  else d.scientific

end Decimal

/-- The text of a double. -/
def Binary64.text (x : Binary64) : List Char :=
  let magnitude := if x.isZero then ['0', '.', '0'] else x.shortest.text
  if x.negative then '-' :: magnitude else magnitude

/-- The text of an integer. -/
def Json.integerText : Int → List Char
  | .ofNat n => Nat.toDigits 10 n
  | .negSucc n => '-' :: Nat.toDigits 10 (n + 1)

/-- The text of a number. -/
def Json.Number.text : Json.Number → List Char
  | .integer value => integerText value
  | .float value => value.text

end StrategyDoc
